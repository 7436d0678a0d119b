import Fetchpp.Connection.Refinement
import Fetchpp.Session.Stopping
import Fetchpp.Transport.Sequence
import Fetchpp.Transport.Steps

/-!
# Responses and the requests they answer

One buffer serves all requests of a session.  If a server answers the requests
of each connection in order, each with one message, then between two exchanges
the buffer is empty: a response leaves nothing behind, and what a failed
exchange leaves goes with the connection, because the close lowers the running
flag and the next connect clears the buffer.  A response to CONNECT is the
exception: its body is not taken for a part of it.
-/

namespace Fetchpp

namespace Connection

open Session Http

variable {Byte Response : Type} {codec : Codec Byte Response}
  {endpoint : SessionEndpoint} {request : PushId → Request}
  {reply : Attempt → List Byte}

/-- Whether a response has no body whatever its header says: the response to
HEAD, and a successful one to CONNECT. -/
def endsWithHeader (codec : Codec Byte Response) (request : Request)
    (reply : List Byte) : Bool :=
  match request.method with
  | .head => true
  | .connect =>
      match (codec.parser true).parse reply with
      | .done _ response => codec.status response / 100 = 2
      | _ => false
  | .other _ => false

/-- The reply to a request is one message. -/
def AnswersOnce (codec : Codec Byte Response) (request : Request)
    (reply : List Byte) : Prop :=
  (codec.parser (endsWithHeader codec request reply)).OneMessage reply

/-- What the server has to send on the current connection. -/
def State.replies (reply : Attempt → List Byte) (s : State Byte Response) :
    List Byte :=
  s.onConnection.reverse.flatMap reply

/-- The run has no `async_start`, and what is read on a connection is what the
server has to send on it. -/
def Event.Served (reply : Attempt → List Byte) (s : State Byte Response) :
    Event Byte → Prop
  | .start => False
  | .answer _ (.chunk bytes) =>
      s.ended = false ∧ s.received ++ bytes <+: s.replies reply
  | _ => True

instance [DecidableEq Byte] (s : State Byte Response) :
    (event : Event Byte) → Decidable (event.Served reply s)
  | .start => inferInstanceAs (Decidable False)
  | .answer _ (.chunk bytes) => inferInstanceAs (Decidable
      (s.ended = false ∧ s.received ++ bytes <+: s.replies reply))
  | .answer _ (.resolved _ _ _) | .answer _ (.connected _ _ _)
  | .answer _ (.ended _ _) | .push | .stop _ | .post _ | .timer _ _ _
  | .complete => inferInstanceAs (Decidable True)

/-- The end of the stream completes the message whose bytes are `part`. -/
def endsWithStream (codec : Codec Byte Response) (skip : Bool)
    (part : List Byte) : Bool :=
  match (codec.parser skip).parse part, (codec.parser skip).finish part with
  | .more _, .ok _ => true
  | _, _ => false

/-- An exchange reads the end of the stream, which completes what has arrived
of a message. -/
def Flight.completes (codec : Codec Byte Response) (buffer : List Byte)
    (flight : Flight Byte Response) : Answer Byte → Bool
  | .ended (some .eof) _ =>
      match flight.point with
      | .exchanging (.reading skip parsed) =>
          endsWithStream codec skip (parsed ++ buffer)
      | _ => false
  | _ => false

/-- A reply that the end of the stream completes is not cut short: the stream
ends behind all the server has to send. -/
def Event.Uncut (codec : Codec Byte Response) (reply : Attempt → List Byte)
    (s : State Byte Response) : Event Byte → Prop
  | .answer index given =>
      s.flights[index]?.any (fun flight =>
        flight.completes codec s.transport.buffer given) = true →
      s.received = s.replies reply
  | _ => True

instance [DecidableEq Byte] (s : State Byte Response) :
    (event : Event Byte) → Decidable (event.Uncut codec reply s)
  | .answer index given => inferInstanceAs (Decidable (
      s.flights[index]?.any (fun flight =>
        flight.completes codec s.transport.buffer given) = true →
      s.received = s.replies reply))
  | .start | .push | .stop _ | .post _ | .timer _ _ _ | .complete =>
      inferInstanceAs (Decidable True)

/-- Errors of the parser are its own. -/
structure ParserErrors (codec : Codec Byte Response) : Prop where
  parse : ∀ skip bytes used,
    (codec.parser skip).parse bytes ≠ .failed used .operationAborted
  finish : ∀ skip bytes,
    (codec.parser skip).finish bytes ≠ .error .operationAborted

/-- The response is that of the whole reply, which ends itself or ends with
the stream. -/
def Received (codec : Codec Byte Response) (skip : Bool) (reply : List Byte)
    (response : Response) : Prop :=
  (codec.parser skip).parse reply = .done reply.length response ∨
  (codec.parser skip).parse reply = .more reply.length ∧
    (codec.parser skip).finish reply = .ok response

def State.lastAttempt (push : PushId) (s : State Byte Response) :
    Option Attempt :=
  s.attempts.find? (fun attempt => attempt.push = push)

def State.lastResponse (push : PushId) (s : State Byte Response) :
    Option (PushId × Response) :=
  s.responses.find? (fun response => response.1 = push)

/-- A request has the response to its last attempt. -/
def State.Got (codec : Codec Byte Response) (request : PushId → Request)
    (reply : Attempt → List Byte) (push : PushId) (s : State Byte Response) :
    Prop :=
  ∃ attempt response, s.lastAttempt push = some attempt ∧
    s.lastResponse push = some (push, response) ∧
    Received codec (request push).skipsBody (reply attempt) response

/-- Every request whose handler is called with success has the response to its
last attempt. -/
def State.ResponsesMatch (codec : Codec Byte Response)
    (request : PushId → Request) (reply : Attempt → List Byte)
    (s : State Byte Response) : Prop :=
  ∀ push, s.session.core.Succeeded push → s.Got codec request reply push

namespace State

/-- The part of a state that is about the connection. -/
def bare (s : State Byte Response) : State Byte Response :=
  { s with
    session := {}
    transport := s.transport.cancelTimer
    flights := []
    completing := none }

/-- No byte is waiting to be parsed, on a transport that runs. -/
structure Clean (s : State Byte Response) : Prop where
  running : s.transport.running = true
  buffer : s.transport.buffer = []

/-- The server owes nothing on this connection. -/
def Heard (reply : Attempt → List Byte) (s : State Byte Response) : Prop :=
  s.ended = true ∨ s.received = s.replies reply

/-- The connection was closed, so that the next connect makes a new one. -/
structure Closed (s : State Byte Response) : Prop where
  running : s.transport.running = false
  isOpen : s.transport.isOpen = false

def Idle (reply : Attempt → List Byte) (s : State Byte Response) : Prop :=
  (s.Clean ∧ (s.transport.isOpen = true → s.Heard reply)) ∨ s.Closed

/-- `attempt` is the last request on the connection; the server owes `earlier`
for those before it. -/
structure Asked (reply : Attempt → List Byte) (attempt : Attempt)
    (earlier : List Byte) (s : State Byte Response) : Prop where
  latest : ∃ others, s.attempts = attempt :: others ∧
    earlier = (others.filter
      (fun other => other.connection = s.connection)).reverse.flatMap reply
  connection : attempt.connection = s.connection

/-- What an exchange has read of the reply to its request. -/
structure Reading (codec : Codec Byte Response) (reply : Attempt → List Byte)
    (attempt : Attempt) (skip : Bool) (parsed : List Byte)
    (s : State Byte Response) : Prop where
  running : s.transport.running = true
  progress : ∃ used,
    (codec.parser skip).parse (parsed ++ s.transport.buffer) = .more used ∧
    s.transport.buffer = (parsed ++ s.transport.buffer).drop used
  arrived : parsed ++ s.transport.buffer <+: reply attempt
  asked : ∃ earlier, s.Asked reply attempt earlier ∧
    ((s.ended = true ∧ parsed ++ s.transport.buffer = []) ∨
      s.received = earlier ++ (parsed ++ s.transport.buffer))

/-- The state in which an operation of the queue waits. -/
def Waits (codec : Codec Byte Response) (request : PushId → Request)
    (reply : Attempt → List Byte) (s : State Byte Response)
    (waiting : Waiting Byte Response) : Prop :=
  match waiting.operation, waiting.point with
  | .connect (.queue _), .resolving _ _ =>
      s.Clean ∧ s.transport.isOpen = false
  | .connect (.queue _), .connecting => s.Clean ∧ s.Heard reply
  | .connect (.queue _), .handshaking => s.Clean ∧ s.Heard reply
  | .exchange op, .exchanging (.writing written) =>
      written = request op.task ∧ s.Clean ∧
      ∃ attempt earlier, attempt.push = op.task ∧
        s.Asked reply attempt earlier ∧ (s.ended = true ∨ s.received = earlier)
  | .exchange op, .exchanging (.reading skip parsed) =>
      skip = (request op.task).skipsBody ∧
      ∃ attempt, attempt.push = op.task ∧
        s.Reading codec reply attempt skip parsed
  | .close _ (.queue op), .closePosted => op.lastEc ≠ none ∧ s.Closed
  | .close _ (.queue op), .tcpClosing =>
      op.lastEc ≠ none ∧ s.transport.running = false
  | .close _ (.queue op), .shuttingDown =>
      op.lastEc ≠ none ∧ s.transport.running = false ∧
      waiting.stream = s.transport.stream
  | _, _ => False

/-- The state in which the handler of an operation of the queue is called. -/
def Ends (codec : Codec Byte Response) (request : PushId → Request)
    (reply : Attempt → List Byte) (s : State Byte Response)
    (operation : Operation) (ec : Option ErrorCode) : Prop :=
  match operation, ec with
  | .connect (.queue _), none => s.Clean ∧ s.Heard reply
  | .connect (.queue _), some _ => s.Idle reply
  | .exchange op, none =>
      s.Clean ∧ s.Heard reply ∧ s.Got codec request reply op.task
  | .exchange _, some error => error ≠ .operationAborted
  | .close _ (.queue op), _ => op.lastEc ≠ none ∧ s.Closed
  | _, _ => False

inductive Phase (codec : Codec Byte Response) (request : PushId → Request)
    (reply : Attempt → List Byte) (s : State Byte Response) : Prop where
  | idle (flights : s.flights = []) (completing : s.completing = none)
      (idle : s.bare.Idle reply)
  | waits (flight : Flight Byte Response) (flights : s.flights = [flight])
      (completing : s.completing = none)
      (notCancelled : flight.cancelled = false)
      (waits : s.bare.Waits codec request reply flight.toWaiting)
  | ends (completing : Completing) (flights : s.flights = [])
      (some : s.completing = some completing)
      (ends : s.bare.Ends codec request reply completing.operation
        completing.ec)

/-- What a step of an operation has to bring about. -/
def Continues (codec : Codec Byte Response) (request : PushId → Request)
    (reply : Attempt → List Byte) (s : State Byte Response)
    (operation : Operation) (next : Step Byte Response) : Prop :=
  match next.2 with
  | .await point =>
      (record operation point { s with transport := next.1 }).bare.Waits codec
        request reply ⟨operation, point, next.1.stream⟩
  | .complete ec =>
      { s with transport := next.1 }.bare.Ends codec request reply operation ec
  | .completeFirst ec =>
      { s with transport := next.1 }.bare.Ends codec request reply operation ec
  | .deliver response =>
      { s with
        transport := next.1
        responses := s.respond operation response }.bare.Ends codec request
          reply operation none
  | .escape => { s with transport := next.1 }.bare.Idle reply

theorem setTransport_nil {s : State Byte Response} (noFlights : s.flights = [])
    (t : Transport Byte) : s.setTransport t = { s with transport := t } := by
  cases s
  cases noFlights
  unfold setTransport
  split <;> rfl

theorem cancelForClose_nil {s : State Byte Response} (noFlights : s.flights = []) :
    s.cancelForClose = s := by
  cases s
  cases noFlights
  unfold cancelForClose
  split <;> rfl

theorem record_bare (operation : Operation) (point : Point Byte Response)
    (flights : List (Flight Byte Response)) (s : State Byte Response) :
    (record operation point { s with flights := flights }).bare =
      (record operation point s).bare := by
  unfold record
  split <;> rfl

theorem phase_enter {s : State Byte Response} (noFlights : s.flights = [])
    (idle : s.completing = none) {operation : Operation}
    {next : Step Byte Response}
    (continues : s.Continues codec request reply operation next) :
    (s.enter operation next).Phase codec request reply := by
  obtain ⟨t, yield⟩ := next
  unfold enter
  rw [setTransport_nil noFlights]
  cases yield with
  | await point =>
      have same := record_sameBut operation point
        { s with
          transport := t
          flights := s.flights ++ [⟨⟨operation, point, t.stream⟩, false⟩] }
      refine .waits ⟨⟨operation, point, t.stream⟩, false⟩ ?_
        (same.completing.trans idle) rfl ?_
      · exact same.flights.trans (by rw [noFlights]; rfl)
      · rw [record_bare]
        exact continues
  | complete ec => exact .ends _ noFlights rfl continues
  | completeFirst ec => exact .ends _ noFlights rfl continues
  | deliver response => exact .ends _ noFlights rfl continues
  | escape => exact .idle noFlights idle continues

/-- No request was written on a connection that is still to come. -/
def Numbered (s : State Byte Response) : Prop :=
  ∀ attempt ∈ s.attempts, attempt.connection ≤ s.connection

theorem Numbered.replies_next {s t : State Byte Response}
    (numbered : s.Numbered) (connection : t.connection = s.connection + 1)
    (attempts : t.attempts = s.attempts) : t.replies reply = [] := by
  have fresh : s.attempts.filter
      (fun attempt => attempt.connection = s.connection + 1) = [] := by
    refine List.filter_eq_nil_iff.mpr ?_
    intro attempt member
    have bounded := numbered attempt member
    simp only [decide_eq_true_eq]
    omega
  simp only [replies, onConnection, attempts, connection, fresh,
    List.reverse_nil, List.flatMap_nil]

theorem continues_resolved {s : State Byte Response} (numbered : s.Numbered)
    (clean : s.Clean) (closed : s.transport.isOpen = false)
    (basic : endpoint.isTunnel = false) {op : QueueOp}
    {domain service : String} {stream : Nat} {answer : Answer Byte}
    {next : Step Byte Response}
    (resumed : (Point.resolving domain service).resume codec endpoint stream
      s.transport answer = some next) :
    s.Continues codec request reply (.connect (.queue op)) next := by
  have failed : ∀ error, s.Continues codec request reply
      (.connect (.queue op)) (basicConnected (some error) s.transport) := by
    intro error
    refine .inl ⟨⟨clean.running, clean.buffer⟩, ?_⟩
    intro isOpen
    have opened : s.transport.isOpen = true := isOpen
    simp [closed] at opened
  have connecting : ∀ opens, s.Continues codec request reply
      (.connect (.queue op))
      (s.transport.setOpen s.transport.stream opens, .await .connecting) := by
    intro opens
    refine ⟨⟨?_, ?_⟩, .inr ?_⟩
    · exact (s.transport.setOpen_running _ _).trans clean.running
    · exact (s.transport.setOpen_buffer _ _).trans clean.buffer
    · apply Eq.symm
      apply numbered.replies_next
      · rfl
      · rfl
  cases answer with
  | resolved ec sni opens =>
      cases endpoint with
      | tunnel endpoint => cases basic
      | plain endpoint =>
          cases ec with
          | some error =>
              cases resumed
              exact failed error
          | none =>
              cases resumed
              exact connecting opens
      | secure endpoint =>
          cases ec with
          | some error =>
              cases resumed
              exact failed error
          | none =>
              cases sni with
              | some error =>
                  cases resumed
                  exact failed error
              | none =>
                  cases resumed
                  exact connecting opens
  | connected ec noDelay leavesOpen => cases resumed
  | ended ec closes => cases resumed
  | chunk bytes => cases resumed

private theorem ends_connect {s : State Byte Response} (clean : s.Clean)
    (heard : s.Heard reply) (op : QueueOp) (ec : Option ErrorCode)
    {t : Transport Byte} (running : t.running = s.transport.running)
    (buffer : t.buffer = s.transport.buffer) :
    s.Continues codec request reply (.connect (.queue op))
      (basicConnected ec t) := by
  have kept : { s with transport := t }.bare.Clean :=
    ⟨running.trans clean.running, buffer.trans clean.buffer⟩
  cases ec with
  | none => exact ⟨kept, heard⟩
  | some error => exact .inl ⟨kept, fun _ => heard⟩

theorem continues_connected {s : State Byte Response}
    (clean : s.Clean) (heard : s.Heard reply)
    (basic : endpoint.isTunnel = false) {op : QueueOp}
    {point : Point Byte Response}
    (connects : point = .connecting ∨ point = .handshaking)
    {stream : Nat} {answer : Answer Byte} {next : Step Byte Response}
    (resumed : point.resume codec endpoint stream s.transport answer =
      some next) :
    s.Continues codec request reply (.connect (.queue op)) next := by
  have ended : ∀ ec, s.Continues codec request reply (.connect (.queue op))
      (basicConnected ec (s.transport.afterAnswer stream answer)) :=
    fun ec => ends_connect clean heard op ec
      (s.transport.afterAnswer_running stream answer)
      (s.transport.afterAnswer_buffer stream answer)
  have kept : { s with
      transport := s.transport.afterAnswer stream answer }.bare.Clean :=
    ⟨(s.transport.afterAnswer_running stream answer).trans clean.running,
      (s.transport.afterAnswer_buffer stream answer).trans clean.buffer⟩
  rcases connects with rfl | rfl
  · cases answer with
    | connected ec noDelay leavesOpen =>
        cases endpoint with
        | tunnel endpoint => cases basic
        | plain endpoint =>
            cases ec with
            | some error =>
                cases resumed
                exact ended _
            | none =>
                cases noDelay with
                | some error =>
                    cases resumed
                    exact .inl ⟨kept, fun _ => heard⟩
                | none =>
                    cases resumed
                    exact ended _
        | secure endpoint =>
            cases ec with
            | some error =>
                cases resumed
                exact ended _
            | none =>
                cases noDelay with
                | some error =>
                    cases resumed
                    exact ended _
                | none =>
                    cases resumed
                    exact ⟨kept, heard⟩
    | resolved ec sni opens => cases resumed
    | ended ec closes => cases resumed
    | chunk bytes => cases resumed
  · cases answer with
    | ended ec closes =>
        cases endpoint with
        | tunnel endpoint => cases basic
        | plain endpoint => cases resumed
        | secure endpoint =>
            cases resumed
            exact ended _
    | resolved ec sni opens => cases resumed
    | connected ec noDelay leavesOpen => cases resumed
    | chunk bytes => cases resumed

theorem Asked.replies_eq {s : State Byte Response} {attempt : Attempt}
    {earlier : List Byte} (asked : s.Asked reply attempt earlier) :
    s.replies reply = earlier ++ reply attempt := by
  obtain ⟨others, attempts, rfl⟩ := asked.latest
  simp only [replies, onConnection, attempts, List.filter_cons,
    asked.connection, decide_true, if_true, List.reverse_cons,
    List.flatMap_append, List.flatMap_cons, List.flatMap_nil, List.append_nil]

theorem Reading.of_data {s : State Byte Response} {attempt : Attempt}
    {skip : Bool} {parsed data earlier : List Byte} {used : Nat}
    (running : s.transport.running = true)
    (whole : parsed ++ s.transport.buffer = data)
    (parse : (codec.parser skip).parse data = .more used)
    (buffer : s.transport.buffer = data.drop used)
    (arrived : data <+: reply attempt)
    (asked : s.Asked reply attempt earlier)
    (heard : (s.ended = true ∧ data = []) ∨ s.received = earlier ++ data) :
    s.Reading codec reply attempt skip parsed := by
  subst whole
  exact ⟨running, ⟨used, parse, buffer⟩, arrived, earlier, asked, heard⟩

/-- What the end of the stream completes is the whole reply. -/
theorem Reading.whole (lawful : codec.Lawful) {s : State Byte Response}
    {attempt : Attempt} {skip : Bool} {parsed : List Byte}
    (reading : s.Reading codec reply attempt skip parsed)
    {response : Response}
    (finish : (codec.parser skip).finish (parsed ++ s.transport.buffer) =
      .ok response)
    (uncut : s.received = s.replies reply) :
    parsed ++ s.transport.buffer = reply attempt := by
  obtain ⟨earlier, asked, ⟨_, nothing⟩ | received⟩ := reading.asked
  · rw [nothing] at finish
    exact ((lawful.parser skip).finish_nil response finish).elim
  · rw [received, asked.replies_eq] at uncut
    exact List.append_cancel_left uncut

private theorem processOneResume_wrote (lawful : codec.Lawful)
    {t : Transport Byte} (running : t.running = true) (buffer : t.buffer = [])
    (request : Request) :
    processOneResume codec (.wrote request) t =
      (t, .await (.exchanging (.reading request.skipsBody []))) := by
  have started : startRead codec request.skipsBody t.buffer =
      ([], .reading request.skipsBody []) := by
    simp [startRead, buffer, (lawful.parser _).feed_nil]
  cases t
  cases running
  cases buffer
  simp only [processOneResume, started]
  rfl

private theorem continues_failed (s : State Byte Response) (op : QueueOp)
    {error : ErrorCode} (notAborted : error ≠ .operationAborted)
    (t : Transport Byte) :
    s.Continues codec request reply (.exchange op)
      (processOneResume codec (.failed error) t) :=
  notAborted

/-- A response is delivered when nothing of it is left in the buffer. -/
private theorem continues_delivered {s : State Byte Response} {op : QueueOp}
    {attempt : Attempt} {earlier : List Byte}
    (asked : s.Asked reply attempt earlier) (push : attempt.push = op.task)
    (heard : s.Heard reply) {response : Response}
    (received : Received codec (request op.task).skipsBody (reply attempt)
      response) {t : Transport Byte} (running : t.running = true)
    (buffer : t.buffer = []) :
    s.Continues codec request reply (.exchange op)
      (processOneResume codec (.read response) t) := by
  obtain ⟨others, attempts, _⟩ := asked.latest
  simp only [processOneResume, running, Bool.not_true, Bool.false_eq_true,
    if_false]
  refine ⟨⟨running, buffer⟩, heard, attempt, response, ?_, ?_, received⟩
  · have first : s.attempts.find?
        (fun other => other.push = op.task) = some attempt := by
      simp [attempts, push]
    exact first
  · have first : ((op.task, response) :: s.responses).find?
        (fun other => other.1 = op.task) = some (op.task, response) := by
      simp
    exact first

theorem continues_written (lawful : codec.Lawful) {s : State Byte Response}
    (clean : s.Clean) {op : QueueOp} {attempt : Attempt}
    {earlier : List Byte} (push : attempt.push = op.task)
    (asked : s.Asked reply attempt earlier)
    (heard : s.ended = true ∨ s.received = earlier) {stream : Nat}
    {answer : Answer Byte} {next : Step Byte Response}
    (notAborted : ∀ error closes, answer = .ended (some error) closes →
      error ≠ .operationAborted)
    (resumed : (Point.exchanging (.writing (request op.task))).resume codec
      endpoint stream s.transport answer = some next) :
    s.Continues codec request reply (.exchange op) next := by
  obtain ⟨result, u, answered, kept, _, _, rfl⟩ :=
    Point.resume_exchanging resumed
  have running : u.running = true := kept.trans clean.running
  generalize left : u.buffer = rest at answered
  cases answered with
  | wrote =>
      have empty : u.buffer = [] := left.trans clean.buffer
      rw [processOneResume_wrote lawful running empty]
      refine ⟨rfl, attempt, push, .of_data running empty
        (lawful.parser _).parse_nil empty List.nil_prefix
        ⟨asked.latest, asked.connection⟩ ?_⟩
      rcases heard with ended | received
      · exact .inl ⟨ended, rfl⟩
      · exact .inr (received.trans (List.append_nil _).symm)
  | writeFailed => exact continues_failed s op (notAborted _ _ rfl) _

theorem Reading.chunk {s : State Byte Response} {attempt : Attempt}
    {skip : Bool} {parsed : List Byte}
    (reading : s.Reading codec reply attempt skip parsed) {index : Nat}
    {bytes : List Byte}
    (served : (Event.answer index (.chunk bytes)).Served reply s) :
    ∃ earlier, s.Asked reply attempt earlier ∧
      s.received ++ bytes =
        earlier ++ (parsed ++ (s.transport.buffer ++ bytes)) ∧
      parsed ++ (s.transport.buffer ++ bytes) <+: reply attempt := by
  obtain ⟨earlier, asked, heard⟩ := reading.asked
  obtain ⟨notEnded, sent⟩ := served
  have received : s.received = earlier ++ (parsed ++ s.transport.buffer) :=
    heard.resolve_left (by simp [notEnded])
  have longer : s.received ++ bytes =
      earlier ++ (parsed ++ (s.transport.buffer ++ bytes)) := by
    simp only [received, List.append_assoc]
  rw [longer, asked.replies_eq] at sent
  exact ⟨earlier, asked, longer,
    (List.prefix_append_right_inj earlier).mp sent⟩

section Exchange

variable {s : State Byte Response} {op : QueueOp} {attempt : Attempt}
  {parsed : List Byte} {u : Transport Byte}

private theorem continues_more (push : attempt.push = op.task)
    (reading : s.Reading codec reply attempt (request op.task).skipsBody
      parsed)
    {index : Nat} {bytes rest parsed' : List Byte}
    (served : (Event.answer index (.chunk bytes)).Served reply s)
    (fed : (codec.parser (request op.task).skipsBody).feed parsed
      (s.transport.buffer ++ bytes) = (rest, .more parsed'))
    (running : u.running = true) (left : u.buffer = rest) :
    (s.hear (.exchanging (.reading (request op.task).skipsBody parsed))
      (.chunk bytes)).Continues codec request reply (.exchange op)
      (processOneResume codec
        (.pending (.reading (request op.task).skipsBody parsed')) u) := by
  obtain ⟨earlier, asked, received, arrived⟩ := reading.chunk served
  obtain ⟨used', parse', _, taken⟩ := Lib.Framing.feed_more fed
  have whole := Lib.Framing.feed_append fed
  rw [← left] at whole
  exact ⟨rfl, attempt, push, .of_data running whole parse' (left.trans taken)
    arrived ⟨asked.latest, asked.connection⟩ (.inr received)⟩

-- A message that ends in what has arrived is the whole reply, because the
-- reply is one message; so it leaves nothing in the buffer.
private theorem continues_read (lawful : codec.Lawful)
    (errors : ParserErrors codec) (push : attempt.push = op.task)
    (one : (codec.parser (request op.task).skipsBody).OneMessage
      (reply attempt))
    (reading : s.Reading codec reply attempt (request op.task).skipsBody
      parsed)
    {index : Nat} {bytes rest : List Byte} {result : Except ErrorCode Response}
    (served : (Event.answer index (.chunk bytes)).Served reply s)
    (fed : (codec.parser (request op.task).skipsBody).feed parsed
      (s.transport.buffer ++ bytes) = (rest, .ended result))
    (running : u.running = true) (left : u.buffer = rest) :
    (s.hear (.exchanging (.reading (request op.task).skipsBody parsed))
      (.chunk bytes)).Continues codec request reply (.exchange op)
      (processOneResume codec (.ofExcept result) u) := by
  obtain ⟨earlier, asked, received, arrived⟩ := reading.chunk served
  cases result with
  | error error =>
      obtain ⟨used', parse'⟩ := Lib.Framing.feed_failed fed
      refine continues_failed _ op ?_ _
      rintro rfl
      exact errors.parse _ _ _ parse'
  | ok response =>
      obtain ⟨used', parse', taken⟩ := Lib.Framing.feed_done fed
      obtain ⟨all, length⟩ :=
        (lawful.parser _).oneMessage_done one arrived parse'
      have heard : s.received ++ bytes = s.replies reply := by
        rw [received, all, asked.replies_eq]
      have empty : u.buffer = [] := by
        rw [left, taken, all, length, List.drop_length]
      rw [all, length] at parse'
      have asked' : (s.hear (.exchanging (.reading
          (request op.task).skipsBody parsed)) (.chunk bytes)).Asked reply
          attempt earlier := ⟨asked.latest, asked.connection⟩
      exact continues_delivered asked' push (.inr heard) (.inl parse') running
        empty

private theorem continues_finished (lawful : codec.Lawful)
    (errors : ParserErrors codec) (push : attempt.push = op.task)
    (reading : s.Reading codec reply attempt (request op.task).skipsBody
      parsed)
    {closes : Bool}
    (uncut : endsWithStream codec (request op.task).skipsBody
      (parsed ++ s.transport.buffer) = true → s.received = s.replies reply)
    (running : u.running = true) (left : u.buffer = s.transport.buffer) :
    (s.hear (.exchanging (.reading (request op.task).skipsBody parsed))
      (.ended (some .eof) closes)).Continues codec request reply (.exchange op)
      (processOneResume codec (.ofExcept
        ((codec.parser (request op.task).skipsBody).finish
          (parsed ++ s.transport.buffer))) u) := by
  obtain ⟨used, parse, buffer⟩ := reading.progress
  obtain ⟨earlier, asked, _⟩ := reading.asked
  cases finish : (codec.parser (request op.task).skipsBody).finish
      (parsed ++ s.transport.buffer) with
  | error error =>
      refine continues_failed _ op ?_ _
      rintro rfl
      exact errors.finish _ _ finish
  | ok response =>
      have all := reading.whole lawful finish
        (uncut (by simp only [endsWithStream, parse, finish]))
      have taken := (lawful.parser _).finish_used parse finish
      have empty : u.buffer = [] := by
        rw [left, buffer, taken, List.drop_length]
      rw [all] at parse finish taken
      rw [taken] at parse
      have asked' : (s.hear (.exchanging (.reading
          (request op.task).skipsBody parsed))
          (.ended (some .eof) closes)).Asked reply attempt earlier :=
        ⟨asked.latest, asked.connection⟩
      exact continues_delivered asked' push (.inl rfl) (.inr ⟨parse, finish⟩)
        running empty

theorem continues_reading (lawful : codec.Lawful) (errors : ParserErrors codec)
    (push : attempt.push = op.task)
    (one : (codec.parser (request op.task).skipsBody).OneMessage
      (reply attempt))
    (reading : s.Reading codec reply attempt (request op.task).skipsBody
      parsed)
    {index stream : Nat} {answer : Answer Byte}
    {next : Step Byte Response}
    (served : (Event.answer index answer).Served reply s)
    (uncut : ∀ closes, answer = .ended (some .eof) closes →
      endsWithStream codec (request op.task).skipsBody
        (parsed ++ s.transport.buffer) = true → s.received = s.replies reply)
    (notAborted : ∀ error closes, answer = .ended (some error) closes →
      error ≠ .operationAborted)
    (resumed : (Point.exchanging
        (.reading (request op.task).skipsBody parsed)).resume codec endpoint
      stream s.transport answer = some next) :
    (s.hear (.exchanging (.reading (request op.task).skipsBody parsed))
      answer).Continues codec request reply (.exchange op) next := by
  obtain ⟨result, u, answered, kept, _, _, rfl⟩ :=
    Point.resume_exchanging resumed
  have running : u.running = true := kept.trans reading.running
  generalize left : u.buffer = rest at answered
  cases answered with
  | more fed => exact continues_more push reading served fed running left
  | read fed =>
      exact continues_read lawful errors push one reading served fed running
        left
  | @finished _ _ closes =>
      exact continues_finished lawful errors push reading (uncut closes rfl)
        running left
  | readFailed notEof => exact continues_failed _ op (notAborted _ _ rfl) _

end Exchange

private theorem continues_closed {s : State Byte Response} {op : QueueOp}
    (failed : op.lastEc ≠ none) (basic : endpoint.isTunnel = false)
    (graceful : GracefulShutdown) (ec : Option ErrorCode) {t : Transport Byte}
    (running : t.running = false) (isOpen : t.isOpen = false) :
    s.Continues codec request reply (.close graceful (.queue op))
      (closed endpoint ec t) := by
  simp only [closed, basic, Bool.false_eq_true, if_false]
  exact ⟨failed, running, isOpen⟩

private theorem setOpen_current (t : Transport Byte) :
    (t.setOpen t.stream false).isOpen = false := by
  simp [Transport.setOpen]

theorem continues_closing {s : State Byte Response} {op : QueueOp}
    (failed : op.lastEc ≠ none) (basic : endpoint.isTunnel = false)
    (graceful : GracefulShutdown) {point : Point Byte Response}
    {stream : Nat} (running : s.transport.running = false)
    (waits : (point = .closePosted ∧ s.transport.isOpen = false) ∨
      point = .tcpClosing ∨
      (point = .shuttingDown ∧ stream = s.transport.stream))
    {answer : Answer Byte} {next : Step Byte Response}
    (resumed : point.resume codec endpoint stream s.transport answer =
      some next) :
    s.Continues codec request reply (.close graceful (.queue op)) next := by
  have stopped : ∀ stream' isOpen,
      ((s.transport.afterAnswer stream answer).setOpen stream'
        isOpen).running = false :=
    fun stream' isOpen => (Transport.setOpen_running _ _ _).trans
      ((s.transport.afterAnswer_running stream answer).trans running)
  cases answer with
  | ended ec closes =>
      rcases waits with ⟨rfl, isOpen⟩ | rfl | ⟨rfl, rfl⟩
      · cases ec with
        | some error => cases resumed
        | none =>
            cases resumed
            exact continues_closed failed basic graceful none running isOpen
      · cases ec with
        | some error => cases resumed
        | none =>
            cases resumed
            exact continues_closed failed basic graceful none (stopped _ _)
              (setOpen_current _)
      · cases resumed
        refine continues_closed failed basic graceful _ (stopped _ _) ?_
        have current := setOpen_current
          (s.transport.afterAnswer s.transport.stream (.ended ec closes))
        rwa [Transport.afterAnswer_stream] at current
  | resolved ec sni opens =>
      rcases waits with ⟨rfl, _⟩ | rfl | ⟨rfl, _⟩ <;> cases resumed
  | connected ec noDelay leavesOpen =>
      rcases waits with ⟨rfl, _⟩ | rfl | ⟨rfl, _⟩ <;> cases resumed
  | chunk bytes =>
      rcases waits with ⟨rfl, _⟩ | rfl | ⟨rfl, _⟩ <;> cases resumed

/-- The assumptions on the codec and on the server. -/
structure Honest (codec : Codec Byte Response) (request : PushId → Request)
    (reply : Attempt → List Byte) : Prop where
  lawful : codec.Lawful
  errors : ParserErrors codec
  one : ∀ attempt : Attempt, (codec.parser
    (request attempt.push).skipsBody).OneMessage (reply attempt)

theorem hear_of_ne {point : Point Byte Response} {answer : Answer Byte}
    (other : ∀ skip parsed, point ≠ .exchanging (.reading skip parsed))
    (s : State Byte Response) : s.hear point answer = s := by
  unfold hear
  split
  · exact (other _ _ rfl).elim
  · exact (other _ _ rfl).elim
  · rfl

theorem Waits.continues {s : State Byte Response} {flight : Flight Byte Response}
    (waits : s.bare.Waits codec request reply flight.toWaiting)
    (honest : Honest codec request reply)
    (basic : endpoint.isTunnel = false) (numbered : s.Numbered)
    (notCancelled : flight.cancelled = false) {index : Nat}
    {answer : Answer Byte} {next : Step Byte Response}
    (mayAnswer : flight.mayAnswer answer = true)
    (served : (Event.answer index answer).Served reply s)
    (uncut : flight.completes codec s.transport.buffer answer = true →
      s.received = s.replies reply)
    (resumed : flight.point.resume codec endpoint flight.stream s.transport
      answer = some next) :
    (s.hear flight.point answer).Continues codec request reply
      flight.operation next := by
  have notAborted : ∀ error closes, answer = .ended (some error) closes →
      error ≠ .operationAborted := by
    rintro error closes rfl rfl
    simp [Flight.mayAnswer, notCancelled] at mayAnswer
  obtain ⟨⟨operation, point, stream⟩, cancelled⟩ := flight
  dsimp only at resumed ⊢
  dsimp only [Waits] at waits
  split at waits
  case h_1 op domain service =>
    have clean : s.Clean := ⟨waits.1.running, waits.1.buffer⟩
    rw [hear_of_ne (by simp)]
    exact continues_resolved numbered clean waits.2 basic resumed
  case h_2 op =>
    have clean : s.Clean := ⟨waits.1.running, waits.1.buffer⟩
    have heard : s.Heard reply := waits.2
    rw [hear_of_ne (by simp)]
    exact continues_connected clean heard basic (.inl rfl) resumed
  case h_3 op =>
    have clean : s.Clean := ⟨waits.1.running, waits.1.buffer⟩
    have heard : s.Heard reply := waits.2
    rw [hear_of_ne (by simp)]
    exact continues_connected clean heard basic (.inr rfl) resumed
  case h_4 op written =>
    obtain ⟨rfl, bare, attempt, earlier, push, bareAsked, heard⟩ := waits
    have clean : s.Clean := ⟨bare.running, bare.buffer⟩
    have asked : s.Asked reply attempt earlier :=
      ⟨bareAsked.latest, bareAsked.connection⟩
    rw [hear_of_ne (by simp)]
    exact continues_written honest.lawful clean push asked heard notAborted
      resumed
  case h_5 op skip parsed =>
    obtain ⟨rfl, attempt, push, bare⟩ := waits
    obtain ⟨earlier, bareAsked, heard⟩ := bare.asked
    have asked : s.Asked reply attempt earlier :=
      ⟨bareAsked.latest, bareAsked.connection⟩
    have reading : s.Reading codec reply attempt
        (request op.task).skipsBody parsed :=
      ⟨bare.running, bare.progress, bare.arrived, earlier, asked, heard⟩
    exact continues_reading honest.lawful honest.errors push
      (push ▸ honest.one attempt) reading served
      (fun closes eof completes => uncut (by subst eof; exact completes))
      notAborted resumed
  case h_6 graceful op =>
    have running : s.transport.running = false := waits.2.running
    rw [hear_of_ne (by simp)]
    exact continues_closing waits.1 basic graceful running
      (.inl ⟨rfl, waits.2.isOpen⟩) resumed
  case h_7 graceful op =>
    have running : s.transport.running = false := waits.2
    rw [hear_of_ne (by simp)]
    exact continues_closing waits.1 basic graceful running (.inr (.inl rfl))
      resumed
  case h_8 graceful op =>
    have running : s.transport.running = false := waits.2.1
    rw [hear_of_ne (by simp)]
    exact continues_closing waits.1 basic graceful running
      (.inr (.inr ⟨rfl, waits.2.2⟩)) resumed
  case h_9 => exact waits.elim

theorem Phase.answered {s t : State Byte Response}
    (phase : s.Phase codec request reply) (honest : Honest codec request reply)
    (basic : endpoint.isTunnel = false) (numbered : s.Numbered) {index : Nat}
    {answer : Answer Byte}
    (served : (Event.answer index answer).Served reply s)
    (uncut : (Event.answer index answer).Uncut codec reply s)
    (answered : Answered codec endpoint s index answer t) :
    t.Phase codec request reply := by
  cases phase with
  | idle flights =>
      have member := answered.member
      simp [flights] at member
  | ends completing flights some =>
      have idle := answered.idle
      simp [some] at idle
  | waits flight flights completing notCancelled waits =>
      have member := answered.member
      rw [flights, List.getElem?_singleton] at member
      split at member
      case isFalse => cases member
      case isTrue first =>
        have same := Option.some.inj member
        subst first
        have resumed := answered.resumed
        have mayAnswer := answered.mayAnswer
        have after := answered.after
        rw [← same] at resumed mayAnswer after
        rw [after]
        have kept := hear_sameBut flight.point answer
          { s with flights := s.flights.eraseIdx 0, completing := none }
        refine phase_enter ?_ kept.completing ?_
        · rw [kept.flights, flights]
          rfl
        · have served' : (Event.answer 0 answer).Served reply
              { s with flights := s.flights.eraseIdx 0, completing := none } := by
            cases answer <;> exact served
          have waits' : State.Waits codec request reply (State.bare
              { s with
                flights := s.flights.eraseIdx 0
                completing := none }) flight.toWaiting := waits
          refine waits'.continues honest basic numbered notCancelled mayAnswer
            served' ?_ resumed
          intro completes
          have whole : s.received = s.replies reply := by
            apply uncut
            simpa [answered.member, ← same] using completes
          exact whole

theorem handled_bare (cancelTimer : Bool) (s : State Byte Response) :
    (s.handled cancelTimer).bare = s.bare := by
  unfold handled
  split <;> rfl

theorem Phase.end_handler {s : State Byte Response}
    (phase : s.Phase codec request reply) (cancelTimer : Bool) :
    (s.handled cancelTimer).Phase codec request reply := by
  cases phase with
  | idle flights completing idle =>
      refine .idle ?_ ?_ ?_
      · rw [handled_flights, flights]
      · rw [handled_completing, completing]
      · rw [handled_bare]
        exact idle
  | waits flight flights completing notCancelled waits =>
      refine .waits flight ?_ ?_ notCancelled ?_
      · rw [handled_flights, flights]
      · rw [handled_completing, completing]
      · rw [handled_bare]
        exact waits
  | ends completing flights some ends =>
      refine .ends completing ?_ ?_ ?_
      · rw [handled_flights, flights]
      · rw [handled_completing, some]
      · rw [handled_bare]
        exact ends

theorem phase_connect {s : State Byte Response} (noFlights : s.flights = [])
    (idle : s.completing = none) (rest : s.bare.Idle reply)
    (closed : s.transport.isOpen = false) (basic : endpoint.isTunnel = false)
    (op : QueueOp) :
    (s.launch endpoint request (.connect (.queue op))).Phase codec request
      reply := by
  have connects : ∀ {isSecure : Bool} (endpoint : Endpoint isSecure),
      s.Continues codec request reply (.connect (.queue op))
        (basicConnect endpoint s.transport) := by
    intro isSecure endpoint
    rcases rest with ⟨clean, _⟩ | stopped
    · have running : s.transport.running = true := clean.running
      simp only [basicConnect, running, Bool.not_true, Bool.false_eq_true,
        if_false]
      exact ⟨⟨rfl, clean.buffer⟩, closed⟩
    · have running : s.transport.running = false := stopped.running
      simp only [basicConnect, running, Bool.not_false, if_true]
      exact ⟨⟨rfl, rfl⟩, rfl⟩
  apply phase_enter noFlights idle
  cases endpoint with
  | plain endpoint => exact connects endpoint
  | secure endpoint => exact connects endpoint
  | tunnel endpoint => cases basic

theorem phase_exchange {s : State Byte Response} (noFlights : s.flights = [])
    (idle : s.completing = none) (clean : s.bare.Clean)
    (heard : s.bare.Heard reply) (op : QueueOp) :
    (s.launch endpoint request (.exchange op)).Phase codec request reply := by
  have running : s.transport.running = true := clean.running
  apply phase_enter noFlights idle
  simp only [processOne, running, Bool.not_true, Bool.false_eq_true, if_false]
  exact ⟨rfl, ⟨clean.running, clean.buffer⟩,
    ⟨op.task, s.connection, s.onConnection.length⟩, s.replies reply, rfl,
    ⟨⟨s.attempts, rfl, rfl⟩, rfl⟩, heard⟩

theorem phase_close {s : State Byte Response} (noFlights : s.flights = [])
    (idle : s.completing = none) (basic : endpoint.isTunnel = false)
    {op : QueueOp} (failed : op.lastEc ≠ none) :
    (s.launch endpoint request (.close .yes (.queue op))).Phase codec request
      reply := by
  simp only [launch, cancelForClose_nil noFlights]
  apply phase_enter noFlights idle
  cases isOpen : s.transport.isOpen with
  | false =>
      have posts : (close endpoint .yes s.transport : Step Byte Response) =
          ((s.transport.setRunning false).setupTimer, .await .closePosted) := by
        simp [close, Transport.setRunning, Transport.setupTimer, isOpen]
      rw [posts]
      exact ⟨failed, rfl, isOpen⟩
  | true =>
      cases endpoint with
      | plain endpoint =>
          have closes : (close (.plain endpoint) .yes s.transport :
              Step Byte Response) =
              ((s.transport.setRunning false).setupTimer,
                .await .tcpClosing) := by
            simp [close, Transport.setRunning, Transport.setupTimer, isOpen]
          rw [closes]
          exact ⟨failed, rfl⟩
      | secure endpoint =>
          have closes : (close (.secure endpoint) .yes s.transport :
              Step Byte Response) =
              ((s.transport.setRunning false).setupTimer,
                .await .shuttingDown) := by
            simp [close, Transport.setRunning, Transport.setupTimer, isOpen]
          rw [closes]
          exact ⟨failed, rfl, rfl⟩
      | tunnel endpoint => cases basic

theorem Phase.resumes {s : State Byte Response}
    (phase : s.Phase codec request reply) {operation : Operation}
    (member : operation ∈ s.outstanding) :
    ∃ op, operation.queueOp? = some op := by
  cases phase with
  | idle flights completing => simp [outstanding, waiting, flights,
      completing] at member
  | waits flight flights completing _ waits =>
      have same : operation = flight.operation := by
        simpa [outstanding, waiting, flights, completing] using member
      subst same
      unfold Waits at waits
      split at waits
      all_goals first
        | exact waits.elim
        | exact ⟨_, congrArg Operation.queueOp? (by assumption)⟩
  | ends completing flights some ends =>
      have same : operation = completing.operation := by
        simpa [outstanding, waiting, flights, some] using member
      subst same
      unfold Ends at ends
      split at ends
      all_goals first
        | exact ends.elim
        | exact ⟨_, congrArg Operation.queueOp? (by assumption)⟩

theorem Phase.of_posted {s : State Byte Response}
    (phase : s.Phase codec request reply) (linked : s.Linked)
    (invariant : s.session.Invariant) {handler : Posted}
    (posted : handler ∈ s.session.posts) :
    s.flights = [] ∧ s.bare.Idle reply := by
  have none : ∀ operation ∈ s.outstanding, False := by
    intro operation member
    obtain ⟨op, resumes⟩ := phase.resumes member
    have notQueue := linked.queueOps_nil invariant posted member
    simp [resumes] at notQueue
  cases phase with
  | idle flights _ idle => exact ⟨flights, idle⟩
  | waits flight flights =>
      refine (none flight.operation ?_).elim
      simp [outstanding, waiting, flights]
  | ends completing flights some =>
      refine (none completing.operation ?_).elim
      simp [outstanding, some]

private theorem phase_quiet {s t : State Byte Response} {event : Session.Event}
    (flights : s.flights = []) (idle : s.bare.Idle reply)
    (handled : Handled endpoint request s event t)
    (same : t = (s.resumed handled.session).handled handled.cancelTimer) :
    t.Phase codec request reply := by
  have phase : (s.resumed handled.session).Phase codec request reply :=
    .idle flights rfl idle
  rw [same]
  exact phase.end_handler _

private theorem phase_silent {s t : State Byte Response} {event : Session.Event}
    (points : s.session.AtPoints) (flights : s.flights = [])
    (idle : s.bare.Idle reply) (handled : Handled endpoint request s event t)
    (silent : ∀ effect, event.Starts s.session.core effect →
      effect.isLocal = true) : t.Phase codec request reply := by
  rcases handled.cases points with same | ⟨effect, _, _, here, _, begun, _⟩
  · exact phase_quiet flights idle handled same
  · have isLocal := silent effect here
    cases effect <;> cases isLocal <;> cases begun

private theorem phase_connected {s t : State Byte Response} {op : QueueOp}
    {isOpen : Bool} (points : s.session.AtPoints) (flights : s.flights = [])
    (clean : s.bare.Clean) (heard : s.bare.Heard reply)
    (handled : Handled endpoint request s
      (.resume (.connect (.queue op)) none isOpen) t) :
    t.Phase codec request reply := by
  rcases handled.cases points with same |
    ⟨effect, operation, next, starts, _, begun, launched⟩
  · exact phase_quiet flights (.inl ⟨clean, fun _ => heard⟩) handled same
  · rw [launched]
    apply Phase.end_handler
    cases starts with
    | elsewhere isLocal => cases effect <;> cases isLocal <;> cases begun
    | connected running task =>
        apply phase_exchange
        · exact flights
        · rfl
        · exact clean
        · exact heard

private theorem phase_failed {s t : State Byte Response} {op : QueueOp}
    {error : ErrorCode} {isOpen : Bool} (exchanged : op.coro = .exchanged)
    (basic : endpoint.isTunnel = false) (flights : s.flights = [])
    (notAborted : error ≠ .operationAborted)
    (runs : s.session.core.running = true)
    (handled : Handled endpoint request s
      (.resume (.exchange op) (some error) isOpen) t) :
    t.Phase codec request reply := by
  have after := handled.after
  have closes : ((Session.Event.resume (.exchange op) (some error)
      isOpen).outcome s.session.core).2 = [.close .yes
        (.queue { op with
          lastEc := some error
          coro := .closed })] :=
    congrArg Prod.snd (QueueOp.call_failed exchanged notAborted _ runs)
  rw [closes] at after
  rw [after]
  apply Phase.end_handler
  apply phase_close
  · exact flights
  · rfl
  · exact basic
  · simp

private theorem phase_completed {s t : State Byte Response}
    (points : s.session.AtPoints) (basic : endpoint.isTunnel = false)
    {completing : Completing} (flights : s.flights = [])
    (completed : s.completing = some completing)
    (ends : s.bare.Ends codec request reply completing.operation
      completing.ec)
    (runs : s.session.core.running = true) {event : Session.Event}
    (handled : Handled endpoint request s event t) :
    t.Phase codec request reply := by
  have caller := handled.caller completing completed
  obtain ⟨operation, ec, cancelTimer⟩ := completing
  subst caller
  have point : operation.AtPoint :=
    points.operations operation (step_eq handled.stepped).1.1
  cases operation with
  | wait waiter cancelled => exact ends.elim
  | connect caller =>
      cases caller with
      | start handler => exact ends.elim
      | queue op =>
          cases ec with
          | none => exact phase_connected points flights ends.1 ends.2 handled
          | some error =>
              refine phase_silent points flights ends handled ?_
              intro effect starts
              cases starts with
              | elsewhere isLocal => exact isLocal
  | exchange op =>
      cases ec with
      | none =>
          obtain ⟨clean, heard, _⟩ := ends
          refine phase_silent points flights (.inl ⟨clean, fun _ => heard⟩)
            handled ?_
          intro effect starts
          cases starts with
          | elsewhere isLocal => exact isLocal
      | some error => exact phase_failed point basic flights ends runs handled
  | close graceful caller =>
      cases caller with
      | stop handler => exact ends.elim
      | queue op =>
          refine phase_silent points flights (.inr ends.2) handled ?_
          intro effect starts
          cases starts with
          | elsewhere isLocal => exact isLocal

private theorem ran_before {s t : State Byte Response}
    {event : Session.Event} (handled : Handled endpoint request s event t)
    (notStart : event ≠ .start) (running : t.session.core.running = true) :
    s.session.core.running = true := by
  rw [handled.session_eq] at running
  cases flag : s.session.core.running with
  | true => rfl
  | false =>
      have stopped :=
        Session.State.step_stopped handled.stepped notStart flag
      simp [stopped] at running

private theorem Phase.resumed {s : State Byte Response}
    (phase : s.Phase codec request reply) (completed : s.completing = none)
    (session : Session.State) : (s.resumed session).Phase codec request reply := by
  cases phase with
  | idle flights _ idle => exact .idle flights rfl idle
  | waits flight flights _ notCancelled waits =>
      exact .waits flight flights rfl notCancelled waits
  | ends completing _ same => simp [completed] at same

-- A handler that starts an operation is one that takes up a task: after it
-- nothing else is going on.
private theorem Phase.started {s t : State Byte Response}
    (phase : s.Phase codec request reply) (linked : s.Linked)
    (reached : Session.machine.Reached s.session)
    (basic : endpoint.isTunnel = false) {event : Event Byte}
    {event' : Session.Event} (notStart : event' ≠ .start)
    (label : event.label s = some event') (completed : s.completing = none)
    (handled : Handled endpoint request s event' t)
    (running : t.session.core.running = true) {effect : Effect}
    (starts : event'.Starts s.session.core effect) {operation : Operation}
    {next : Step Byte Response}
    (begun : started endpoint request s.transport effect =
      some (operation, next)) :
    ((s.resumed handled.session).launch endpoint request effect).Phase codec
      request reply := by
  have enabled := (step_eq handled.stepped).1
  have alone := handled.alone completed
  cases starts with
  | elsewhere isLocal => cases effect <;> cases isLocal <;> cases begun
  | start => exact (notStart rfl).elim
  | stop graceful =>
      rw [handled.session_eq, handled.stopped] at running
      cases running
  | connect takes =>
      obtain ⟨_, closed⟩ := Event.label_post label
      obtain ⟨flights, idle⟩ :=
        phase.of_posted linked (reached_invariant reached) enabled
      apply phase_connect
      · exact flights
      · rfl
      · exact idle
      · exact closed.symm
      · exact basic
  | reuse takes =>
      obtain ⟨_, isOpen⟩ := Event.label_post label
      obtain ⟨flights, idle⟩ :=
        phase.of_posted linked (reached_invariant reached) enabled
      rcases idle with ⟨clean, heard⟩ | closed
      · apply phase_exchange
        · exact flights
        · rfl
        · exact clean
        · exact heard isOpen.symm
      · have notOpen : s.transport.isOpen = false := closed.isOpen
        simp [notOpen] at isOpen
  | connected _ _ =>
      obtain ⟨_, _, other⟩ := alone _ _ _ rfl
      cases other
  | failed _ _ _ =>
      obtain ⟨_, _, other⟩ := alone _ _ _ rfl
      cases other

theorem Phase.handled {s t : State Byte Response}
    (phase : s.Phase codec request reply) (linked : s.Linked)
    (reached : Session.machine.Reached s.session)
    (basic : endpoint.isTunnel = false) {event : Event Byte}
    (notStart : event ≠ .start) {event' : Session.Event}
    (label : event.label s = some event')
    (handled : Handled endpoint request s event' t)
    (running : t.session.core.running = true) :
    t.Phase codec request reply := by
  have points := reached_atPoints reached
  have notStart' : event' ≠ .start := by
    rintro rfl
    exact notStart (Event.label_start label)
  have runs := ran_before handled notStart' running
  cases completed : s.completing with
  | some completing =>
      cases phase with
      | idle flights none => simp [completed] at none
      | waits flight flights none => simp [completed] at none
      | ends other flights same ends =>
          exact phase_completed points basic flights same ends runs handled
  | none =>
      have before := phase.resumed completed handled.session
      rcases handled.cases points with quiet |
        ⟨effect, operation, next, starts, _, begun, launched⟩
      · rw [quiet]
        exact before.end_handler _
      · rw [launched]
        exact (phase.started linked reached basic notStart' label completed
          handled running starts begun).end_handler _

/-- What a step of an operation records. -/
structure Recorded (s : State Byte Response) (operation : Operation)
    (t : State Byte Response) : Prop where
  attempts : t.attempts = s.attempts ∨ ∃ op attempt,
    operation = .exchange op ∧ attempt.push = op.task ∧
    attempt.connection = s.connection ∧ t.attempts = attempt :: s.attempts
  responses : t.responses = s.responses ∨ ∃ op response,
    operation = .exchange op ∧ t.responses = (op.task, response) :: s.responses
  connection : s.connection ≤ t.connection

theorem Recorded.of_same {s t : State Byte Response} (operation : Operation)
    (attempts : t.attempts = s.attempts) (responses : t.responses = s.responses)
    (connection : t.connection = s.connection) : s.Recorded operation t :=
  ⟨.inl attempts, .inl responses, Nat.le_of_eq connection.symm⟩

theorem Recorded.of_before {s u t : State Byte Response}
    {operation : Operation}
    (same : u.attempts = s.attempts ∧ u.responses = s.responses ∧
      u.connection = s.connection)
    (recorded : u.Recorded operation t) : s.Recorded operation t := by
  obtain ⟨attempts, responses, connection⟩ := same
  refine ⟨?_, ?_, ?_⟩
  · rw [← attempts, ← connection]
    exact recorded.attempts
  · rw [← responses]
    exact recorded.responses
  · rw [← connection]
    exact recorded.connection

theorem enter_recorded (operation : Operation) (next : Step Byte Response)
    (s : State Byte Response) :
    s.Recorded operation (s.enter operation next) := by
  have same : (s.setTransport next.1).attempts = s.attempts ∧
      (s.setTransport next.1).responses = s.responses ∧
      (s.setTransport next.1).connection = s.connection := by
    unfold setTransport
    split <;> exact ⟨rfl, rfl, rfl⟩
  obtain ⟨attempts, responses, connection⟩ := same
  have kept := Recorded.of_same operation attempts responses connection
  obtain ⟨t, yield⟩ := next
  cases yield with
  | await point =>
      simp only [enter]
      unfold record
      split
      · exact ⟨.inl attempts, .inl responses,
          Nat.le_succ_of_le (Nat.le_of_eq connection.symm)⟩
      · exact ⟨.inr ⟨_, _, rfl, rfl, connection, congrArg _ attempts⟩,
          .inl responses, Nat.le_of_eq connection.symm⟩
      · exact ⟨.inl attempts, .inl responses, Nat.le_of_eq connection.symm⟩
  | complete ec => exact ⟨kept.attempts, kept.responses, kept.connection⟩
  | completeFirst ec => exact ⟨kept.attempts, kept.responses, kept.connection⟩
  | escape => exact kept
  | deliver response =>
      refine ⟨kept.attempts, ?_, kept.connection⟩
      cases operation with
      | exchange op =>
          exact .inr ⟨op, response, rfl, congrArg _ responses⟩
      | connect caller => exact .inl responses
      | close graceful caller => exact .inl responses
      | wait waiter cancelled => exact .inl responses

theorem Recorded.numbered {s t : State Byte Response} {operation : Operation}
    (recorded : s.Recorded operation t) (numbered : s.Numbered) :
    t.Numbered := by
  intro attempt member
  rcases recorded.attempts with same | ⟨op, latest, _, _, here, added⟩
  · rw [same] at member
    exact Nat.le_trans (numbered attempt member) recorded.connection
  · rw [added] at member
    rcases List.mem_cons.mp member with rfl | earlier
    · exact here ▸ recorded.connection
    · exact Nat.le_trans (numbered attempt earlier) recorded.connection

theorem Recorded.got {s t : State Byte Response} {operation : Operation}
    (recorded : s.Recorded operation t) {push : PushId}
    (other : ∀ op, operation = .exchange op → op.task ≠ push)
    (got : s.Got codec request reply push) :
    t.Got codec request reply push := by
  obtain ⟨attempt, response, last, lastResponse, received⟩ := got
  refine ⟨attempt, response, ?_, ?_, received⟩
  · rcases recorded.attempts with same | ⟨op, latest, exchange, task, _, added⟩
    · rw [lastAttempt, same]
      exact last
    · have notPush := other op exchange
      rw [lastAttempt, added, List.find?_cons_of_neg (by simpa [task])]
      exact last
  · rcases recorded.responses with same | ⟨op, latest, exchange, added⟩
    · rw [State.lastResponse, same]
      exact lastResponse
    · have notPush := other op exchange
      rw [State.lastResponse, added, List.find?_cons_of_neg (by simpa)]
      exact lastResponse

end State

theorem Answered.recorded {s t : State Byte Response} {index : Nat}
    {answer : Answer Byte} (answered : Answered codec endpoint s index answer t) :
    s.Recorded answered.flight.operation t := by
  have recorded := State.enter_recorded answered.flight.operation answered.next
    (State.hear answered.flight.point answer
      { s with flights := s.flights.eraseIdx index, completing := none })
  have kept : ∀ u : State Byte Response,
      (u.hear answered.flight.point answer).attempts = u.attempts ∧
      (u.hear answered.flight.point answer).responses = u.responses ∧
      (u.hear answered.flight.point answer).connection = u.connection := by
    intro u
    unfold State.hear
    split <;> exact ⟨rfl, rfl, rfl⟩
  rw [← answered.after] at recorded
  exact recorded.of_before (kept
    { s with flights := s.flights.eraseIdx index, completing := none })

theorem Handled.recorded {s t : State Byte Response} {event : Session.Event}
    (points : s.session.AtPoints)
    (handled : Handled endpoint request s event t) :
    ∃ operation, s.Recorded operation t ∧
      ∀ op, operation = .exchange op → operation ∈ t.session.operations := by
  have ended : ∀ {operation : Operation} {u : State Byte Response}
      (cancelTimer : Bool), s.Recorded operation u →
      s.Recorded operation (u.handled cancelTimer) := by
    intro operation u cancelTimer recorded
    unfold State.handled
    split
    · exact ⟨recorded.attempts, recorded.responses, recorded.connection⟩
    · exact recorded
  rcases handled.cases points with quiet |
    ⟨effect, operation, next, _, one, begun, launched⟩
  · have same : s.Recorded (.wait 0 false) (s.resumed handled.session) :=
      .of_same _ rfl rfl rfl
    refine ⟨.wait 0 false, ?_, nofun⟩
    rw [quiet]
    exact ended _ same
  · have before : (s.resumed handled.session).attempts = s.attempts ∧
        (s.resumed handled.session).responses = s.responses ∧
        (s.resumed handled.session).connection = s.connection :=
      ⟨rfl, rfl, rfl⟩
    refine ⟨operation, ?_, ?_⟩
    · rw [launched]
      apply ended
      cases effect with
      | post handler => cases begun
      | wait stop => cases begun
      | cancelTimer => cases begun
      | connect caller =>
          cases begun
          have recorded := State.enter_recorded (.connect caller)
            (connect endpoint s.transport) (s.resumed handled.session)
          exact recorded.of_before before
      | exchange op =>
          cases begun
          have recorded := State.enter_recorded (.exchange op)
            (processOne (request op.task) s.transport)
            (s.resumed handled.session)
          exact recorded.of_before before
      | close graceful caller =>
          cases begun
          have recorded := State.enter_recorded (.close graceful caller)
            (close endpoint graceful s.transport)
            (s.resumed handled.session).cancelForClose
          have same : ∀ u : State Byte Response,
              u.cancelForClose.attempts = u.attempts ∧
              u.cancelForClose.responses = u.responses ∧
              u.cancelForClose.connection = u.connection := by
            intro u
            unfold State.cancelForClose
            split <;> exact ⟨rfl, rfl, rfl⟩
          exact recorded.of_before (same (s.resumed handled.session))
    · intro _ _
      rw [handled.operations one begun]
      exact List.mem_append_right _ List.mem_cons_self

/-- What holds in every state of a run with an honest server. -/
structure State.Matching (codec : Codec Byte Response)
    (request : PushId → Request) (reply : Attempt → List Byte)
    (s : State Byte Response) : Prop where
  responses : s.ResponsesMatch codec request reply
  phase : s.session.core.running = true → s.Phase codec request reply
  numbered : s.Numbered

namespace State.Matching

private theorem served_of_succeeded {c : Core} {push : PushId}
    (succeeded : c.Succeeded push) : push ∈ c.served := by
  refine List.mem_map.mpr ⟨⟨push, none, .complete⟩, ?_, rfl⟩
  exact List.mem_filter.mpr ⟨succeeded, rfl⟩

private theorem not_at_work {s : Session.State} (invariant : s.Invariant)
    {op : QueueOp} (member : .exchange op ∈ s.operations) {push : PushId}
    (succeeded : s.core.Succeeded push) : op.task ≠ push := by
  rintro rfl
  have live : op ∈ s.liveOps :=
    List.mem_filterMap.mpr ⟨.exchange op, member, rfl⟩
  exact invariant.live_not_served live (served_of_succeeded succeeded)

theorem answered {s t : State Byte Response}
    (matching : s.Matching codec request reply)
    (honest : State.Honest codec request reply)
    (basic : endpoint.isTunnel = false) (linked : s.Linked)
    (invariant : s.session.Invariant) {index : Nat} {answer : Answer Byte}
    (served : (Event.answer index answer).Served reply s)
    (uncut : (Event.answer index answer).Uncut codec reply s)
    (answered : Answered codec endpoint s index answer t) :
    t.Matching codec request reply := by
  have session := answered.entered.session
  have recorded := answered.recorded
  have member : answered.flight.operation ∈ s.session.operations := by
    apply linked.subperm.subset
    apply List.mem_append_left
    apply List.mem_map_of_mem
    exact List.mem_map_of_mem (List.mem_of_getElem? answered.member)
  refine ⟨?_, ?_, recorded.numbered matching.numbered⟩
  · intro push succeeded
    rw [session] at succeeded
    refine recorded.got ?_ (matching.responses push succeeded)
    intro op exchange
    exact not_at_work invariant (exchange ▸ member) succeeded
  · intro running
    rw [session] at running
    exact (matching.phase running).answered honest basic matching.numbered
      served uncut answered

/-- A new success is that of an exchange which has its response. -/
private theorem got_of_new {s t : State Byte Response}
    (matching : s.Matching codec request reply)
    (points : s.session.AtPoints) {event : Session.Event}
    (handled : Handled endpoint request s event t) {push : PushId}
    (succeeded : t.session.core.Succeeded push) :
    s.Got codec request reply push := by
  have enabled := (step_eq handled.stepped).1
  have point := points.event enabled
  have core : t.session.core = (event.outcome s.session.core).1 := by
    rw [handled.session_eq, (step_eq handled.stepped).2]
    exact Session.State.apply_core _ _
  rw [core] at succeeded
  rcases event.outcome_succeeded point succeeded with earlier |
    ⟨operation, op, ec, isOpen, rfl, queueOp, rfl, running, succeeds⟩
  · exact matching.responses push earlier
  cases idle : s.completing with
  | none =>
      obtain ⟨waiter, cancelled, rfl⟩ := handled.alone idle _ _ _ rfl
      cases queueOp
  | some completing =>
      have caller := handled.caller completing idle
      simp only [Session.Event.resume.injEq] at caller
      obtain ⟨rfl, rfl, _⟩ := caller
      cases matching.phase running with
      | idle _ none => simp [idle] at none
      | waits _ _ none => simp [idle] at none
      | ends other _ same ends =>
          rw [idle] at same
          cases same
          obtain ⟨operation, ec, cancelTimer⟩ := completing
          cases operation with
          | wait waiter cancelled => cases queueOp
          | connect caller =>
              cases caller with
              | start handler => cases queueOp
              | queue other =>
                  cases queueOp
                  have connected : op.coro = .connected := point
                  rcases succeeds with ⟨coro, _⟩ | ⟨coro, _⟩ <;>
                    simp [connected] at coro
          | exchange other =>
              cases queueOp
              have exchanged : op.coro = .exchanged := point
              rcases succeeds with ⟨_, noError⟩ | ⟨coro, _⟩
              · cases noError
                obtain ⟨_, _, got⟩ := ends
                exact got
              · simp [exchanged] at coro
          | close graceful caller =>
              cases caller with
              | stop stop => cases queueOp
              | queue other =>
                  cases queueOp
                  have closed : op.coro = .closed := point
                  rcases succeeds with ⟨coro, _⟩ | ⟨_, noError⟩
                  · simp [closed] at coro
                  · exact (ends.1 noError).elim

theorem handled {s t : State Byte Response}
    (matching : s.Matching codec request reply)
    (basic : endpoint.isTunnel = false) (linked : s.Linked)
    (reached : Session.machine.Reached s.session)
    (after : Session.machine.Reached t.session) {event : Event Byte}
    (notStart : event ≠ .start) {event' : Session.Event}
    (label : event.label s = some event')
    (handled : Handled endpoint request s event' t) :
    t.Matching codec request reply := by
  have points := reached_atPoints reached
  obtain ⟨operation, recorded, member⟩ := handled.recorded points
  refine ⟨?_, ?_, recorded.numbered matching.numbered⟩
  · intro push succeeded
    refine recorded.got ?_ (matching.got_of_new points handled succeeded)
    intro op exchange
    exact not_at_work (reached_invariant after)
      (exchange ▸ member op exchange) succeeded
  · intro running
    have runs : s.session.core.running = true := by
      cases flag : s.session.core.running with
      | true => rfl
      | false =>
          have notStart' : event' ≠ .start := by
            rintro rfl
            exact notStart (Event.label_start label)
          have stopped :=
            Session.State.step_stopped handled.stepped notStart' flag
          rw [handled.session_eq, stopped] at running
          cases running
    exact (matching.phase runs).handled linked reached basic notStart label
      handled running

end State.Matching

/-- With a server that answers each request of a connection once and in order,
every success stands for the response to the last attempt, as long as a refused
CONNECT is refused without a body and no reply that the end of the stream
delimits is cut short. -/
theorem reached_responsesMatch (basic : endpoint.isTunnel = false)
    (lawful : codec.Lawful) (errors : ParserErrors codec)
    (answers : ∀ attempt : Attempt,
      AnswersOnce codec (request attempt.push) (reply attempt))
    (refusals : ∀ attempt : Attempt, (request attempt.push).method = .connect →
      (codec.parser true).OneMessage (reply attempt))
    {s : State Byte Response}
    (reached : (machine codec endpoint request).ReachedBy
      (fun before event =>
        event.Served reply before ∧ event.Uncut codec reply before) s) :
    s.ResponsesMatch codec request reply := by
  have honest : State.Honest codec request reply := by
    refine ⟨lawful, errors, ?_⟩
    intro attempt
    have once := answers attempt
    have refused := refusals attempt
    unfold AnswersOnce endsWithHeader at once
    unfold Request.skipsBody
    cases method : (request attempt.push).method with
    | head => simpa [method] using once
    | connect => simpa using refused method
    | other verb => simpa [method] using once
  have matching : s.Matching codec request reply := by
    refine reached.invariant ?_ ?_
    · refine ⟨?_, fun _ => .idle rfl rfl (.inl ⟨⟨rfl, rfl⟩, nofun⟩), ?_⟩
      · intro push succeeded
        cases succeeded
      · intro attempt member
        cases member
    · rintro before event after earlier matching ⟨served, uncut⟩ stepped
      have reachedSession := reached_session earlier.reached
      have linked := reached_linked earlier.reached
      rcases step_cases stepped with ⟨index, answer, rfl, ⟨answered⟩⟩ |
        ⟨event', label, ⟨handled⟩⟩
      · exact matching.answered honest basic linked
          (reached_invariant reachedSession) served uncut answered
      · refine matching.handled basic linked reachedSession ?_ ?_ label handled
        · exact reached_session (earlier.reached.step trivial stepped)
        · rintro rfl
          exact served
  exact matching.responses

def exampleEndpoint : SessionEndpoint :=
  .plain ⟨"target", 80⟩

def exampleReply (body : String) : List Char :=
  ("HTTP/1.1 200 OK\r\nContent-Length: 2\r\n\r\n" ++ body).toList

/-- The reply to the first request is cut off; the retry and the second request
are answered on a new connection. -/
def retriedRun : List (Event Char) :=
  [.push, .push, .post .processTask, .answer 0 (.resolved none none true),
    .answer 0 (.connected none none true), .complete,
    .answer 0 (.ended none false),
    .answer 0 (.chunk "HTTP/1.1 200 OK\r\nContent-".toList),
    .answer 0 (.ended (some .eof) false), .complete,
    .answer 0 (.ended none false), .complete,
    .post (.retry ⟨0, some (.other 0), .entry, false⟩),
    .answer 0 (.resolved none none true),
    .answer 0 (.connected none none true), .complete,
    .answer 0 (.ended none false), .answer 0 (.chunk (exampleReply "ok")),
    .complete, .post .advanceTask, .answer 0 (.ended none false),
    .answer 0 (.chunk (exampleReply "ok")), .complete]

theorem textCodec_errors : ParserErrors textCodec where
  parse skip bytes used := by
    simp only [textCodec, parseText]
    split
    · simp
    · split
      · simp
      · split <;> simp
  finish skip bytes := by
    simp only [textCodec, finishText]
    split
    · simp
    · split <;> simp

theorem responsesMatch_of_retriedRun :
    ∃ s, (machine textCodec exampleEndpoint (fun _ => exampleRequest)).runWhere
        (fun before event =>
          event.Served (fun _ => exampleReply "ok") before ∧
          event.Uncut textCodec (fun _ => exampleReply "ok") before)
        {} retriedRun = some s ∧
      s.session.core.posted = [⟨0, none, .complete⟩, ⟨1, none, .complete⟩] ∧
      s.attempts = [⟨1, 2, 1⟩, ⟨0, 2, 0⟩, ⟨0, 1, 0⟩] ∧
      s.ResponsesMatch textCodec (fun _ => exampleRequest)
        (fun _ => exampleReply "ok") := by
  have executed : ((machine textCodec exampleEndpoint
      (fun _ => exampleRequest)).runWhere
      (fun before event =>
        event.Served (fun _ => exampleReply "ok") before ∧
        event.Uncut textCodec (fun _ => exampleReply "ok") before)
      {} retriedRun).map (fun s => (s.session.core.posted, s.attempts)) =
        some ([⟨0, none, .complete⟩, ⟨1, none, .complete⟩],
          [⟨1, 2, 1⟩, ⟨0, 2, 0⟩, ⟨0, 1, 0⟩]) := by
    decide +kernel
  obtain ⟨s, run, record⟩ := Option.map_eq_some_iff.mp executed
  obtain ⟨posted, attempts⟩ := Prod.mk.inj record
  have answers : AnswersOnce textCodec exampleRequest (exampleReply "ok") :=
    (textCodec_lawful.parser false).oneMessage_of_done rfl
  refine ⟨s, run, posted, attempts, ?_⟩
  refine reached_responsesMatch ?_ textCodec_lawful textCodec_errors
    (fun _ => answers) ?_ (Lib.Machine.reachedBy_of_runWhere retriedRun run)
  · rfl
  · intro attempt connects
    cases connects

def refusal : List Char :=
  ("HTTP/1.1 403 No\r\nContent-Length: 40\r\n\r\n".toList ++
    exampleReply "no")

def refusedRequest (push : PushId) : Request :=
  if push = 0 then { method := .connect, target := "other:443" }
  else exampleRequest

def refusedReply (attempt : Attempt) : List Char :=
  if attempt.push = 0 then refusal else exampleReply "ok"

/-- A CONNECT is refused; the next request takes the body of the refusal for
its response. -/
def refusedRun : List (Event Char) :=
  [.push, .push, .post .processTask, .answer 0 (.resolved none none true),
    .answer 0 (.connected none none true), .complete,
    .answer 0 (.ended none false), .answer 0 (.chunk refusal), .complete,
    .post .advanceTask, .answer 0 (.ended none false),
    .answer 0 (.ended none false), .complete]

private theorem refusedReply_answersOnce (attempt : Attempt) :
    AnswersOnce textCodec (refusedRequest attempt.push)
      (refusedReply attempt) := by
  by_cases first : attempt.push = 0
  · simp only [refusedRequest, refusedReply, first, if_true]
    exact (textCodec_lawful.parser false).oneMessage_of_done rfl
  · simp only [refusedRequest, refusedReply, first, if_false]
    exact (textCodec_lawful.parser false).oneMessage_of_done rfl

theorem refusedRun_not_responsesMatch :
    ¬∀ (endpoint : SessionEndpoint) (request : PushId → Request)
      (reply : Attempt → List Char) (s : State Char TextResponse),
      endpoint.isTunnel = false →
      (∀ attempt : Attempt,
        AnswersOnce textCodec (request attempt.push) (reply attempt)) →
      (machine textCodec endpoint request).ReachedBy
        (fun before event => event.Served reply before) s →
      s.ResponsesMatch textCodec request reply := by
  intro claim
  have executed : ((machine textCodec exampleEndpoint refusedRequest).runWhere
      (fun before event => event.Served refusedReply before) {}
      refusedRun).map (fun s => (decide (s.session.core.Succeeded 1),
        s.lastAttempt 1, (s.lastResponse 1).map (fun given => given.2.body))) =
        some (true, some ⟨1, 1, 1⟩, some ['n', 'o']) := by
    decide +kernel
  obtain ⟨s, run, record⟩ := Option.map_eq_some_iff.mp executed
  simp only [Prod.mk.injEq, decide_eq_true_eq] at record
  obtain ⟨succeeded, asked, body⟩ := record
  obtain ⟨attempt, response, last, given, received⟩ :=
    claim exampleEndpoint refusedRequest refusedReply s rfl
      refusedReply_answersOnce
      (Lib.Machine.reachedBy_of_runWhere refusedRun run) 1 succeeded
  rw [asked] at last
  cases last
  rw [given] at body
  have wrong : response.body = ['n', 'o'] := Option.some.inj body
  have whole : (textCodec.parser false).parse (exampleReply "ok") =
      .done 40 ⟨200, "HTTP/1.1 200 OK\r\nContent-Length: 2\r\n\r\n".toList,
        ['o', 'k']⟩ := by
    rfl
  rcases received with parse | ⟨parse, _⟩
  · have same := whole.symm.trans parse
    rw [← (Lib.Progress.done.inj same).2] at wrong
    cases wrong
  · cases whole.symm.trans parse

end Connection

end Fetchpp

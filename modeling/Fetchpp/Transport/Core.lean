import Fetchpp.Endpoint
import Fetchpp.Http.Message

/-!
# Transports

The operations of `basic_transport.hpp`, `tcp_transport.hpp`,
`ssl_transport.hpp`, `tunnel_transport.hpp`, `close_ssl.hpp` and
`process_one.hpp`.  A composed operation is a coroutine: a function to the next
operation it awaits, together with the function that resumes it there.  An
inner operation calls the handler of the outer one when it completes, so that
both are resumed in one step.
-/

namespace Fetchpp

open Http

/-- A transport and the stream it holds.  `stream` tells the streams made by
`stream_creator_` apart, `isOpen` and `timerArmed` are those of the lowest
layer of the current one. -/
structure Transport (Byte : Type) where
  buffer : List Byte := []
  running : Bool := true
  stream : Nat := 0
  isOpen : Bool := false
  timerArmed : Bool := false
  deriving DecidableEq, Repr

variable {Byte Response : Type}

/-- What an operation is waiting for.  The last component of an exchange is an
`async_read` that ended with the bytes it found in the buffer and whose
completion is posted. -/
inductive IoPoint (Byte Response : Type) where
  | writing (request : Request)
  | reading (skip : Bool) (parsed : List Byte)
  | read (result : Except ErrorCode Response)

inductive Point (Byte Response : Type) where
  | resolving (domain service : String)
  | connecting
  /-- the exchange of the CONNECT request, in clear -/
  | proxying (io : IoPoint Byte Response)
  | handshaking
  /-- the exchange of `transport_op` -/
  | exchanging (io : IoPoint Byte Response)
  /-- the `net::post` in `async_close` -/
  | closePosted
  /-- the `net::post` in `async_tcp_close_op` -/
  | tcpClosing
  /-- the `async_shutdown` in `async_ssl_close_op` -/
  | shuttingDown

def Point.onStream : Point Byte Response → Bool
  | .connecting => true
  | .proxying (.writing _) => true
  | .proxying (.reading _ _) => true
  | .handshaking => true
  | .exchanging (.writing _) => true
  | .exchanging (.reading _ _) => true
  | .shuttingDown => true
  | _ => false

def Point.isResolving : Point Byte Response → Bool
  | .resolving _ _ => true
  | _ => false

/-- How an awaited operation ends, or what a read brings. -/
inductive Answer (Byte : Type) where
  /-- the resolve; then the result of `SSL_set_tlsext_host_name`, and whether
  `async_connect` opens the socket -/
  | resolved (ec sni : Option ErrorCode) (opens : Bool)
  /-- the connect; then the result of setting `no_delay`, and whether a failed
  connect leaves the socket open -/
  | connected (ec noDelay : Option ErrorCode) (leavesOpen : Bool)
  /-- anything else; the timer closes the socket when it runs out -/
  | ended (ec : Option ErrorCode) (closes : Bool)
  | chunk (bytes : List Byte)
  deriving DecidableEq, Repr

/-- The socket the operation was started on is closed when it ends. -/
def Answer.closes : Answer Byte → Bool
  | .connected (some _) _ leavesOpen => !leavesOpen
  | .ended (some _) closes => closes
  | _ => false

inductive Yield (Byte Response : Type) where
  | await (point : Point Byte Response)
  | complete (ec : Option ErrorCode)
  /-- completes, and cancels the timer after the handler has run -/
  | completeFirst (ec : Option ErrorCode)
  /-- stores the response and completes -/
  | deliver (response : Response)
  /-- an exception leaves the handler -/
  | escape

namespace Transport

def setRunning (running : Bool) (t : Transport Byte) : Transport Byte :=
  { t with running := running }

def setupTimer (t : Transport Byte) : Transport Byte :=
  { t with timerArmed := true }

def cancelTimer (t : Transport Byte) : Transport Byte :=
  { t with timerArmed := false }

def clearBuffer (t : Transport Byte) : Transport Byte :=
  { t with buffer := [] }

def setOpen (stream : Nat) (isOpen : Bool) (t : Transport Byte) :
    Transport Byte :=
  if stream = t.stream then { t with isOpen := isOpen } else t

/-- `stream_ = std::make_unique<next_layer_type>(stream_creator_())` -/
def newStream (t : Transport Byte) : Transport Byte :=
  { t with stream := t.stream + 1, isOpen := false, timerArmed := false }

/-- `basic_async_transport::reset` -/
def basicReset (t : Transport Byte) : Transport Byte :=
  t.clearBuffer.newStream

/-- `tunnel_async_transport::reset` -/
def tunnelReset (t : Transport Byte) : Transport Byte :=
  t.newStream

/-- The transport as the continuation of an answer finds it. -/
def afterAnswer (stream : Nat) (answer : Answer Byte) (t : Transport Byte) :
    Transport Byte :=
  if answer.closes then t.setOpen stream false else t

@[simp] theorem setOpen_buffer (stream : Nat) (isOpen : Bool)
    (t : Transport Byte) : (t.setOpen stream isOpen).buffer = t.buffer := by
  unfold setOpen
  split <;> rfl

@[simp] theorem setOpen_running (stream : Nat) (isOpen : Bool)
    (t : Transport Byte) : (t.setOpen stream isOpen).running = t.running := by
  unfold setOpen
  split <;> rfl

@[simp] theorem setOpen_stream (stream : Nat) (isOpen : Bool)
    (t : Transport Byte) : (t.setOpen stream isOpen).stream = t.stream := by
  unfold setOpen
  split <;> rfl

@[simp] theorem afterAnswer_buffer (stream : Nat) (answer : Answer Byte)
    (t : Transport Byte) : (t.afterAnswer stream answer).buffer = t.buffer := by
  unfold afterAnswer
  split <;> simp

@[simp] theorem afterAnswer_running (stream : Nat) (answer : Answer Byte)
    (t : Transport Byte) :
    (t.afterAnswer stream answer).running = t.running := by
  unfold afterAnswer
  split <;> simp

@[simp] theorem afterAnswer_stream (stream : Nat) (answer : Answer Byte)
    (t : Transport Byte) : (t.afterAnswer stream answer).stream = t.stream := by
  unfold afterAnswer
  split <;> simp

end Transport

abbrev Step (Byte Response : Type) := Transport Byte × Yield Byte Response

/-- How `http::async_write` or `http::async_read` goes on. -/
inductive IoResult (Byte Response : Type) where
  | pending (io : IoPoint Byte Response)
  | wrote (request : Request)
  | read (response : Response)
  | failed (error : ErrorCode)

def IoResult.ofExcept : Except ErrorCode Response → IoResult Byte Response
  | .ok response => .read response
  | .error error => .failed error

/-- `http::async_read`, called with what is in the buffer. -/
def startRead (codec : Codec Byte Response) (skip : Bool) (buffer : List Byte) :
    List Byte × IoPoint Byte Response :=
  match (codec.parser skip).feed [] buffer with
  | (rest, .more parsed) => (rest, .reading skip parsed)
  | (rest, .ended result) => (rest, .read result)

/-- The write or the read of an exchange is answered. -/
def IoPoint.resume (codec : Codec Byte Response) (buffer : List Byte) :
    IoPoint Byte Response → Answer Byte →
      Option (List Byte × IoResult Byte Response)
  | .writing request, .ended none _ => some (buffer, .wrote request)
  | .writing _, .ended (some error) _ => some (buffer, .failed error)
  | .reading skip parsed, .chunk bytes =>
      match (codec.parser skip).feed parsed (buffer ++ bytes) with
      | (rest, .more parsed) => some (rest, .pending (.reading skip parsed))
      | (rest, .ended result) => some (rest, .ofExcept result)
  | .reading skip parsed, .ended (some .eof) _ =>
      some (buffer,
        .ofExcept ((codec.parser skip).finish (parsed ++ buffer)))
  | .reading _ _, .ended (some error) _ => some (buffer, .failed error)
  | .read result, .ended none _ => some (buffer, .ofExcept result)
  | _, _ => none

/-- `transport_op::operator()`, up to its write. -/
def processOne (request : Request) (t : Transport Byte) : Step Byte Response :=
  if !t.running then
    (t.cancelTimer, .complete (some .operationAborted))
  else
    (t.setupTimer, .await (.exchanging (.writing request)))

/-- `transport_op::operator()` resumed with the result of its write or of its
read. -/
def processOneResume (codec : Codec Byte Response)
    (result : IoResult Byte Response) (t : Transport Byte) :
    Step Byte Response :=
  match result with
  | .pending io => (t, .await (.exchanging io))
  | .failed error => (t.cancelTimer, .complete (some error))
  | .wrote request =>
      if !t.running then
        (t.cancelTimer, .complete (some .operationAborted))
      else
        let (rest, io) := startRead codec request.skipsBody t.buffer
        ({ t with buffer := rest }, .await (.exchanging io))
  | .read response =>
      if !t.running then
        (t.cancelTimer, .complete (some .operationAborted))
      else
        (t.cancelTimer, .deliver response)

/-- `async_basic_connect_op::operator()`, up to its resolve. -/
def basicConnect {isSecure : Bool} (endpoint : Endpoint isSecure)
    (t : Transport Byte) : Step Byte Response :=
  let t := if !t.running then t.basicReset else t
  ((t.setRunning true).setupTimer,
    .await (.resolving endpoint.domain (toString endpoint.port)))

/-- `async_basic_connect_op::operator()` resumed by `do_async_connect`, or by
a resolve that failed. -/
def basicConnected (ec : Option ErrorCode) (t : Transport Byte) :
    Step Byte Response :=
  (t.cancelTimer, .complete ec)

/-- `async_tcp_connect_op::operator()`, up to its connect. -/
def tcpConnect (opens : Bool) (t : Transport Byte) : Step Byte Response :=
  (t.setOpen t.stream opens, .await .connecting)

/-- `async_tcp_connect_op::operator()` resumed by its connect; this overload of
`set_option` throws. -/
def tcpConnected (ec noDelay : Option ErrorCode) (t : Transport Byte) :
    Step Byte Response :=
  match ec with
  | some error => basicConnected (some error) t
  | none =>
      match noDelay with
      | some _ => (t, .escape)
      | none => basicConnected none t

/-- `async_ssl_connect_op::operator()`, up to its connect. -/
def sslConnect (sni : Option ErrorCode) (opens : Bool) (t : Transport Byte) :
    Step Byte Response :=
  match sni with
  | some error => basicConnected (some error) t
  | none => (t.setOpen t.stream opens, .await .connecting)

/-- `async_ssl_connect_op::operator()` resumed by its connect. -/
def sslConnected (ec noDelay : Option ErrorCode) (t : Transport Byte) :
    Step Byte Response :=
  match ec with
  | some error => basicConnected (some error) t
  | none =>
      match noDelay with
      | some error => basicConnected (some error) t
      | none => (t, .await .handshaking)

/-- `async_tunnel_connect_op::operator()`, up to its resolve. -/
def tunnelConnect (endpoint : TunnelEndpoint) (t : Transport Byte) :
    Step Byte Response :=
  ((t.setRunning true).setupTimer,
    .await (.resolving endpoint.proxy.domain (toString endpoint.proxy.port)))

/-- `async_tunnel_connect_op::operator()` called with the resolved results. -/
def tunnelResolved (ec sni : Option ErrorCode) (opens : Bool)
    (t : Transport Byte) : Step Byte Response :=
  match ec with
  | some error => (t, .completeFirst (some error))
  | none =>
      match sni with
      | some error => (t, .complete (some error))
      | none => (t.setOpen t.stream opens, .await .connecting)

/-- The request by which a tunnel is asked for. -/
def connectRequest (endpoint : TunnelEndpoint) : Request :=
  let request : Request :=
    { method := .connect, target := endpoint.target.host }
  (request.set "Host" endpoint.target.host).set "Proxy-Connection" "Keep-Alive"

/-- `async_tunnel_connect_op::operator()` resumed by its connect, up to the
write of its exchange with the proxy; `set_option` throws. -/
def tunnelConnected (endpoint : TunnelEndpoint)
    (ec noDelay : Option ErrorCode) (t : Transport Byte) : Step Byte Response :=
  match ec with
  | some error => (t.cancelTimer, .complete (some error))
  | none =>
      match noDelay with
      | some _ => (t, .escape)
      | none => (t, .await (.proxying (.writing (connectRequest endpoint))))

/-- `stream_op::operator()` and `parser_op::operator()` resumed with the
result of the write or of the read, and `async_tunnel_connect_op::operator()`
resumed by their completion, up to its handshake. -/
def tunnelProxied (codec : Codec Byte Response)
    (result : IoResult Byte Response) (t : Transport Byte) :
    Step Byte Response :=
  match result with
  | .pending io => (t, .await (.proxying io))
  | .failed error => (t.cancelTimer, .complete (some error))
  | .wrote request =>
      let (rest, io) := startRead codec request.skipsBody t.buffer
      ({ t with buffer := rest }, .await (.proxying io))
  | .read response =>
      if codec.status response ≠ 200 then
        (t, .completeFirst (some .connectionRefused))
      else
        (t, .await .handshaking)

/-- `async_tunnel_connect_op::operator()` resumed by its handshake. -/
def tunnelShaken (ec : Option ErrorCode) (t : Transport Byte) :
    Step Byte Response :=
  (t.cancelTimer, .complete ec)

/-- The end of `async_close`. -/
def closed (endpoint : SessionEndpoint) (ec : Option ErrorCode)
    (t : Transport Byte) : Step Byte Response :=
  if endpoint.isTunnel then
    (t.cancelTimer.clearBuffer.tunnelReset, .complete ec)
  else
    (t.cancelTimer, .complete ec)

/-- `async_close`, up to where it first waits.  What it cancels is told by
`isOpen`: the operations on the stream, or the resolve. -/
def close (endpoint : SessionEndpoint) (graceful : GracefulShutdown)
    (t : Transport Byte) : Step Byte Response :=
  let t := (t.setRunning false).setupTimer
  if t.isOpen then
    match graceful with
    | .yes =>
        match endpoint with
        | .plain _ => (t, .await .tcpClosing)
        | _ => (t, .await .shuttingDown)
    | .no => closed endpoint none t
  else
    (t, .await .closePosted)

/-- The codes that `async_ssl_close_op` takes for an orderly end. -/
def shutdownError : Option ErrorCode → Option ErrorCode
  | some .eof => none
  | some .streamTruncated => none
  | some .unspecifiedSystemError => none
  | some .operationAborted => none
  | ec => ec

/-- `async_connect` -/
def connect : SessionEndpoint → Transport Byte → Step Byte Response
  | .plain endpoint, t => basicConnect endpoint t
  | .secure endpoint, t => basicConnect endpoint t
  | .tunnel endpoint, t => tunnelConnect endpoint t

/-- An operation is resumed by an answer to what it awaits, which was started
on `stream`.  Every continuation but the one of `async_ssl_close_op` acts on
the stream that is current then. -/
def Point.resume (codec : Codec Byte Response) (endpoint : SessionEndpoint)
    (stream : Nat) (t : Transport Byte) (point : Point Byte Response)
    (answer : Answer Byte) :
    Option (Step Byte Response) :=
  let t := t.afterAnswer stream answer
  match point, answer with
  | .resolving _ _, .resolved ec sni opens =>
      match endpoint with
      | .plain _ =>
          match ec with
          | some error => some (basicConnected (some error) t)
          | none => some (tcpConnect opens t)
      | .secure _ =>
          match ec with
          | some error => some (basicConnected (some error) t)
          | none => some (sslConnect sni opens t)
      | .tunnel _ => some (tunnelResolved ec sni opens t)
  | .connecting, .connected ec noDelay _ =>
      match endpoint with
      | .plain _ => some (tcpConnected ec noDelay t)
      | .secure _ => some (sslConnected ec noDelay t)
      | .tunnel endpoint => some (tunnelConnected endpoint ec noDelay t)
  | .handshaking, .ended ec _ =>
      match endpoint with
      | .plain _ => none
      | .secure _ => some (basicConnected ec t)
      | .tunnel _ => some (tunnelShaken ec t)
  | .proxying io, answer =>
      match endpoint, io.resume codec t.buffer answer with
      | .tunnel _, some (rest, result) =>
          some (tunnelProxied codec result { t with buffer := rest })
      | _, _ => none
  | .exchanging io, answer =>
      match io.resume codec t.buffer answer with
      | some (rest, result) =>
          some (processOneResume codec result { t with buffer := rest })
      | none => none
  | .closePosted, .ended none _ => some (closed endpoint none t)
  | .tcpClosing, .ended none _ =>
      some (closed endpoint none (t.setOpen t.stream false))
  | .shuttingDown, .ended ec _ =>
      some (closed endpoint (shutdownError ec) (t.setOpen stream false))
  | _, _ => none

end Fetchpp

import Fetchpp.Http.TextCodec
import Fetchpp.Lib.Machine
import Fetchpp.Transport.Core

/-!
# The overloads of `async_process_one`

`process_one.hpp` once more, each of its coroutines on its own: `parser_op`,
`stream_op`, which awaits a `parser_op`, and `transport_op`.  They run on a
stream whose operations have any results; a write and a read of a message are
loops over those.
-/

namespace Fetchpp.ProcessOne

open Http Lib

/-- Beast's serializer, parser and default-constructed message. -/
structure Beast (Byte Response : Type) where
  serialize : Request → List Byte
  parser : (skip : Bool) → (bodyLimit : Nat) → Framing Byte Response ErrorCode
  blank : Response

/-- `response_parser`: how it was set up, and the message it holds. -/
structure Parser (Response : Type) where
  skip : Bool := false
  bodyLimit : Nat
  message : Response
  deriving DecidableEq, Repr

/-- The objects an exchange works on.  The stream overload is given the buffer
of the transport and nothing else of it. -/
structure Objects (Byte Response : Type) where
  transport : Transport Byte
  response : Response
  parser : Parser Response
  written : List Byte := []
  deriving DecidableEq, Repr

variable {Byte Response : Type}

namespace Objects

def skip (objects : Objects Byte Response) : Objects Byte Response :=
  { objects with parser := { objects.parser with skip := true } }

/-- `res_ = std::move(parser_->release())` -/
def release (objects : Objects Byte Response) : Objects Byte Response :=
  { objects with response := objects.parser.message }

def setupTimer (objects : Objects Byte Response) : Objects Byte Response :=
  { objects with transport := objects.transport.setupTimer }

def cancelTimer (objects : Objects Byte Response) : Objects Byte Response :=
  { objects with transport := objects.transport.cancelTimer }

end Objects

/-- What an operation does next. -/
inductive Turn where
  | write (req : Request)
  | read
  | complete (ec : Option ErrorCode)
  deriving DecidableEq, Repr

/-- Where a coroutine that writes and reads stands. -/
inductive Coro where
  | entry
  | written
  | read
  deriving DecidableEq, Repr

structure ParserOp where
  req : Request
  coro : Coro := .entry
  deriving DecidableEq, Repr

/-- `parser_op::operator()` -/
def ParserOp.call (ec : Option ErrorCode) (op : ParserOp) : ParserOp × Turn :=
  match ec with
  | some error => (op, .complete (some error))
  | none =>
      match op.coro with
      | .entry => ({ op with coro := .written }, .write op.req)
      | .written => ({ op with coro := .read }, .read)
      | .read => (op, .complete none)

/-- `inner` is the `parser_op` it awaits. -/
structure StreamOp where
  req : Request
  inner : Option ParserOp := none
  deriving DecidableEq, Repr

/-- `stream_op::operator()` -/
def StreamOp.call (ec : Option ErrorCode) (op : StreamOp)
    (objects : Objects Byte Response) :
    StreamOp × Objects Byte Response × Turn :=
  match ec with
  | some error => (op, objects, .complete (some error))
  | none =>
      match op.inner with
      | none =>
          let objects := if op.req.skipsBody then objects.skip else objects
          let (inner, turn) := ParserOp.call none { req := op.req }
          ({ op with inner := some inner }, objects, turn)
      | some _ => (op, objects.release, .complete none)

/-- The `parser_op` it awaits is resumed, and calls it when it completes. -/
def StreamOp.resume (ec : Option ErrorCode) (op : StreamOp)
    (objects : Objects Byte Response) :
    StreamOp × Objects Byte Response × Turn :=
  match op.inner with
  | none => op.call ec objects
  | some inner =>
      match inner.call ec with
      | (inner, .complete ec) =>
          StreamOp.call ec { op with inner := some inner } objects
      | (inner, turn) => ({ op with inner := some inner }, objects, turn)

structure TransportOp where
  req : Request
  coro : Coro := .entry
  deriving DecidableEq, Repr

/-- `transport_op::operator()` -/
def TransportOp.call (ec : Option ErrorCode) (op : TransportOp)
    (objects : Objects Byte Response) :
    TransportOp × Objects Byte Response × Turn :=
  match ec with
  | some error => (op, objects.cancelTimer, .complete (some error))
  | none =>
      if !objects.transport.running then
        (op, objects.cancelTimer, .complete (some .operationAborted))
      else
        match op.coro with
        | .entry =>
            ({ op with coro := .written }, objects.setupTimer, .write op.req)
        | .written => ({ op with coro := .read }, objects, .read)
        | .read => (op, objects.release.cancelTimer, .complete none)

/-- What an operation awaits: the write of these bytes, a read that has parsed
these, or the posted completion of a read. -/
inductive Awaits (Byte Response : Type) where
  | writing (todo : List Byte)
  | reading (parsed : List Byte)
  | read (result : Except ErrorCode Response)
  | completed (ec : Option ErrorCode)
  deriving DecidableEq

/-- The result of an operation on the stream. -/
inductive Result (Byte : Type) where
  | wrote (size : Nat) (ec : Option ErrorCode)
  | chunk (bytes : List Byte)
  | failed (error : ErrorCode)
  /-- a read that needed nothing of the stream -/
  | posted
  deriving DecidableEq, Repr

structure State (Op Byte Response : Type) where
  op : Op
  objects : Objects Byte Response
  awaits : Awaits Byte Response
  deriving DecidableEq

/-- How an operation is resumed. -/
abbrev Resume (Op Byte Response : Type) :=
  Option ErrorCode → Op → Objects Byte Response →
    Op × Objects Byte Response × Turn

variable {Op : Type} (beast : Beast Byte Response)
  (resume : Resume Op Byte Response)

def State.setBuffer (buffer : List Byte) (s : State Op Byte Response) :
    State Op Byte Response :=
  { s with objects :=
      { s.objects with transport :=
          { s.objects.transport with buffer := buffer } } }

/-- The parser is given what is in the buffer. -/
def State.feed (parsed : List Byte) (s : State Op Byte Response) :
    List Byte × Fed Byte Response ErrorCode :=
  (beast.parser s.objects.parser.skip s.objects.parser.bodyLimit).feed parsed
    s.objects.transport.buffer

/-- `http::async_write` or `http::async_read` begins. -/
def enter (next : Op × Objects Byte Response × Turn) :
    State Op Byte Response :=
  match next with
  | (op, objects, .write req) => ⟨op, objects, .writing (beast.serialize req)⟩
  | (op, objects, .complete ec) => ⟨op, objects, .completed ec⟩
  | (op, objects, .read) =>
      let s : State Op Byte Response := ⟨op, objects, .reading []⟩
      match s.feed beast [] with
      | (rest, .more parsed) =>
          { s.setBuffer rest with awaits := .reading parsed }
      | (rest, .ended result) =>
          { s.setBuffer rest with awaits := .read result }

/-- A read of a message completes. -/
def State.finishRead (result : Except ErrorCode Response)
    (s : State Op Byte Response) : State Op Byte Response :=
  match result with
  | .error error => enter beast (resume (some error) s.op s.objects)
  | .ok response =>
      enter beast (resume none s.op
        { s.objects with parser :=
            { s.objects.parser with message := response } })

def State.transfer (size : Nat) (todo : List Byte)
    (s : State Op Byte Response) : State Op Byte Response :=
  { s with
    objects :=
      { s.objects with written := s.objects.written ++ todo.take size }
    awaits := .writing (todo.drop size) }

def State.step (s : State Op Byte Response) (result : Result Byte) :
    Option (State Op Byte Response) :=
  match s.awaits, result with
  | .writing todo, .wrote size none =>
      let after := s.transfer size todo
      if (todo.drop size).isEmpty then
        some (enter beast (resume none after.op after.objects))
      else some after
  | .writing todo, .wrote size (some error) =>
      let after := s.transfer size todo
      some (enter beast (resume (some error) after.op after.objects))
  | .reading parsed, .chunk bytes =>
      let arrived := s.setBuffer (s.objects.transport.buffer ++ bytes)
      match arrived.feed beast parsed with
      | (rest, .more parsed) =>
          some { arrived.setBuffer rest with awaits := .reading parsed }
      | (rest, .ended result) =>
          some ((arrived.setBuffer rest).finishRead beast resume result)
  | .reading parsed, .failed .eof =>
      some (s.finishRead beast resume
        ((beast.parser s.objects.parser.skip
          s.objects.parser.bodyLimit).finish
            (parsed ++ s.objects.transport.buffer)))
  | .reading _, .failed error =>
      some (enter beast (resume (some error) s.op s.objects))
  | .read result, .posted => some (s.finishRead beast resume result)
  | _, _ => none

/-- `stream_op`, constructed and called. -/
def streamOverload (request : Request) (buffer : List Byte)
    (response : Response) :
    Machine (State StreamOp Byte Response) (Result Byte) where
  start := enter beast (StreamOp.call none { req := request }
    { transport := { buffer := buffer }
      response := response
      parser := { bodyLimit := 83886080, message := beast.blank } })
  step := State.step beast StreamOp.resume

/-- `transport_op`, constructed and called. -/
def transportOverload (request : Request) (transport : Transport Byte)
    (response : Response) :
    Machine (State TransportOp Byte Response) (Result Byte) where
  start := enter beast (TransportOp.call none { req := request }
    { transport := transport
      response := response
      parser :=
        { skip := request.skipsBody
          bodyLimit := 80 * 1024 * 1024
          message := beast.blank } })
  step := State.step beast TransportOp.call

/-- The objects agree in all that both overloads are given. -/
structure Objects.Agrees (left right : Objects Byte Response) : Prop where
  buffer : left.transport.buffer = right.transport.buffer
  response : left.response = right.response
  parser : left.parser = right.parser
  written : left.written = right.written
  running : right.transport.running = true

/-- The coroutine of the inner `parser_op` stands where the one of the
`transport_op` does. -/
def SamePlace (left : StreamOp) (right : TransportOp) : Prop :=
  left.inner = some ⟨right.req, right.coro⟩

structure State.Agrees (left : State StreamOp Byte Response)
    (right : State TransportOp Byte Response) : Prop where
  place : SamePlace left.op right.op
  objects : left.objects.Agrees right.objects
  awaits : left.awaits = right.awaits

/-- What the caller sees of an exchange: the bytes that were written, its
completion, the response object and the buffer. -/
def State.seen {Op : Type} (s : State Op Byte Response) :
    List Byte × Option (Option ErrorCode) × Response × List Byte :=
  let completed :=
    match s.awaits with
    | .completed ec => some ec
    | _ => none
  (s.objects.written, completed, s.objects.response, s.objects.transport.buffer)

theorem State.Agrees.seen {left : State StreamOp Byte Response}
    {right : State TransportOp Byte Response} (agrees : left.Agrees right) :
    left.seen = right.seen := by
  simp only [State.seen, agrees.awaits, agrees.objects.written,
    agrees.objects.response, agrees.objects.buffer]

namespace Objects.Agrees

variable {left right : Objects Byte Response}

theorem cancelTimer (agrees : left.Agrees right) :
    left.Agrees right.cancelTimer :=
  ⟨agrees.buffer, agrees.response, agrees.parser, agrees.written,
    agrees.running⟩

theorem setupTimer (agrees : left.Agrees right) :
    left.Agrees right.setupTimer :=
  ⟨agrees.buffer, agrees.response, agrees.parser, agrees.written,
    agrees.running⟩

theorem release (agrees : left.Agrees right) :
    left.release.Agrees right.release :=
  ⟨agrees.buffer, congrArg Parser.message agrees.parser, agrees.parser,
    agrees.written, agrees.running⟩

end Objects.Agrees

/-- Both operations take the same turn. -/
structure NextAgrees (left : StreamOp × Objects Byte Response × Turn)
    (right : TransportOp × Objects Byte Response × Turn) : Prop where
  place : SamePlace left.1 right.1
  objects : left.2.1.Agrees right.2.1
  turn : left.2.2 = right.2.2

theorem resume_agrees {left : StreamOp} {right : TransportOp}
    {objects objects' : Objects Byte Response} (place : SamePlace left right)
    (agrees : objects.Agrees objects') (ec : Option ErrorCode) :
    NextAgrees (left.resume ec objects) (right.call ec objects') := by
  have inner : left.inner = some ⟨right.req, right.coro⟩ := place
  cases ec with
  | some error =>
      simp only [StreamOp.resume, inner, ParserOp.call, StreamOp.call,
        TransportOp.call]
      exact ⟨rfl, agrees.cancelTimer, rfl⟩
  | none =>
      cases coro : right.coro with
      | entry =>
          simp only [StreamOp.resume, inner, ParserOp.call, TransportOp.call,
            coro, agrees.running, Bool.not_true, Bool.false_eq_true, if_false]
          exact ⟨rfl, agrees.setupTimer, rfl⟩
      | written =>
          simp only [StreamOp.resume, inner, ParserOp.call, TransportOp.call,
            coro, agrees.running, Bool.not_true, Bool.false_eq_true, if_false]
          exact ⟨rfl, agrees, rfl⟩
      | read =>
          simp only [StreamOp.resume, inner, ParserOp.call, StreamOp.call,
            TransportOp.call, coro, agrees.running, Bool.not_true,
            Bool.false_eq_true, if_false]
          refine ⟨?_, agrees.release.cancelTimer, rfl⟩
          simp [SamePlace, coro]

namespace State.Agrees

variable {beast : Beast Byte Response} {left : State StreamOp Byte Response}
  {right : State TransportOp Byte Response}

theorem feed (agrees : left.Agrees right) (parsed : List Byte) :
    left.feed beast parsed = right.feed beast parsed := by
  simp only [State.feed, agrees.objects.parser, agrees.objects.buffer]

theorem setBuffer (agrees : left.Agrees right) (buffer : List Byte) :
    (left.setBuffer buffer).Agrees (right.setBuffer buffer) :=
  { place := agrees.place
    objects :=
      { buffer := rfl
        response := agrees.objects.response
        parser := agrees.objects.parser
        written := agrees.objects.written
        running := agrees.objects.running }
    awaits := agrees.awaits }

theorem await (agrees : left.Agrees right) (awaits : Awaits Byte Response) :
    State.Agrees { left with awaits := awaits }
      { right with awaits := awaits } :=
  ⟨agrees.place, agrees.objects, rfl⟩

theorem transfer (agrees : left.Agrees right) (size : Nat)
    (todo : List Byte) :
    (left.transfer size todo).Agrees (right.transfer size todo) :=
  { place := agrees.place
    objects :=
      { buffer := agrees.objects.buffer
        response := agrees.objects.response
        parser := agrees.objects.parser
        written := congrArg (· ++ todo.take size) agrees.objects.written
        running := agrees.objects.running }
    awaits := rfl }

theorem enter {next : StreamOp × Objects Byte Response × Turn}
    {next' : TransportOp × Objects Byte Response × Turn}
    (agrees : NextAgrees next next') :
    (enter beast next).Agrees (enter beast next') := by
  obtain ⟨op, objects, turn⟩ := next
  obtain ⟨op', objects', turn'⟩ := next'
  obtain ⟨place, same, turns⟩ := agrees
  cases turns
  cases turn with
  | write req => exact ⟨place, same, rfl⟩
  | complete ec => exact ⟨place, same, rfl⟩
  | read =>
      have begun : State.Agrees
          (⟨op, objects, .reading []⟩ : State StreamOp Byte Response)
          ⟨op', objects', .reading []⟩ := ⟨place, same, rfl⟩
      simp only [ProcessOne.enter, begun.feed]
      split
      · exact (begun.setBuffer _).await _
      · exact (begun.setBuffer _).await _

theorem resumed (agrees : left.Agrees right) (ec : Option ErrorCode) :
    (ProcessOne.enter beast (left.op.resume ec left.objects)).Agrees
      (ProcessOne.enter beast (right.op.call ec right.objects)) :=
  enter (resume_agrees agrees.place agrees.objects ec)

theorem finishRead (agrees : left.Agrees right)
    (result : Except ErrorCode Response) :
    (left.finishRead beast StreamOp.resume result).Agrees
      (right.finishRead beast TransportOp.call result) := by
  cases result with
  | error error => exact agrees.resumed (some error)
  | ok response =>
      apply enter
      apply resume_agrees agrees.place
      exact
        { buffer := agrees.objects.buffer
          response := agrees.objects.response
          parser := congrArg
            (fun parser => ({ parser with message := response } :
              Parser Response)) agrees.objects.parser
          written := agrees.objects.written
          running := agrees.objects.running }

theorem step (agrees : left.Agrees right) (result : Result Byte) :
    Option.Rel State.Agrees (left.step beast StreamOp.resume result)
      (right.step beast TransportOp.call result) := by
  have buffer := agrees.objects.buffer
  have parser := agrees.objects.parser
  have awaits := agrees.awaits
  unfold State.step
  rw [← awaits, ← buffer, ← parser]
  split
  case h_1 todo size written =>
    dsimp only
    split
    · exact .some ((agrees.transfer size todo).resumed none)
    · exact .some (agrees.transfer size todo)
  case h_2 todo size error written =>
    exact .some ((agrees.transfer size todo).resumed (some error))
  case h_3 parsed bytes reading =>
    have arrived := agrees.setBuffer (left.objects.transport.buffer ++ bytes)
    dsimp only
    rw [← arrived.feed]
    split
    · exact .some ((arrived.setBuffer _).await _)
    · exact .some ((arrived.setBuffer _).finishRead _)
  case h_4 parsed reading => exact .some (agrees.finishRead _)
  case h_5 error notEof reading => exact .some (agrees.resumed (some error))
  case h_6 result read => exact .some (agrees.finishRead result)
  case h_7 => exact .none

end State.Agrees

theorem overloads_lockstep (beast : Beast Byte Response) (request : Request)
    {transport : Transport Byte} (running : transport.running = true)
    (response : Response) :
    Machine.Lockstep (streamOverload beast request transport.buffer response)
      (transportOverload beast request transport response) State.Agrees where
  start := by
    simp only [streamOverload, transportOverload]
    apply State.Agrees.enter
    cases skips : request.skipsBody with
    | false =>
        simp only [StreamOp.call, ParserOp.call, TransportOp.call, skips,
          running, Bool.not_true, Bool.false_eq_true, if_false]
        exact ⟨rfl, ⟨rfl, rfl, rfl, rfl, running⟩, rfl⟩
    | true =>
        simp only [StreamOp.call, ParserOp.call, TransportOp.call, skips,
          running, Bool.not_true, Bool.false_eq_true, if_false, if_true]
        exact ⟨rfl, ⟨rfl, rfl, rfl, rfl, running⟩, rfl⟩
  step := by
    intro left right result agrees
    exact agrees.step result

/-- Whatever the stream answers, both overloads write the same bytes, complete
with the same error and leave the response object and the buffer the same. -/
theorem overloads_agree (beast : Beast Byte Response) (request : Request)
    {transport : Transport Byte} (running : transport.running = true)
    (response : Response) (results : List (Result Byte)) :
    ((streamOverload beast request transport.buffer response).run
        (streamOverload beast request transport.buffer response).start
        results).map State.seen =
      ((transportOverload beast request transport response).run
        (transportOverload beast request transport response).start
        results).map State.seen :=
  (overloads_lockstep beast request running response).observe
    (fun _ _ agrees => agrees.seen) results

/-- The method and the target, and the parser of `textCodec` with a limit. -/
def textBeast : Beast Char TextResponse where
  serialize request := ("GET " ++ request.target ++ "\r\n\r\n").toList
  parser skip bodyLimit :=
    { parse := fun bytes =>
        match parseText skip bytes with
        | .done used response =>
            if response.body.length ≤ bodyLimit then .done used response
            else .failed used (.other 1)
        | progress => progress
      finish := finishText skip }
  blank := ⟨0, [], []⟩

/-- A write in two parts and a response in two chunks, with a byte behind it. -/
def chunkedResults : List (Result Char) :=
  [.wrote 3 none, .wrote 100 none, .chunk "HTTP/1.1 200 OK\r\nContent-".toList,
    .chunk "Length: 2\r\n\r\nok!".toList]

def chunkedRequest : Request where
  method := .other "GET"
  target := "/"

/-- What is seen of it. -/
def chunkedSeen :
    List Char × Option (Option ErrorCode) × TextResponse × List Char :=
  ("GET /\r\n\r\n".toList, some none,
    ⟨200, "HTTP/1.1 200 OK\r\nContent-Length: 2\r\n\r\n".toList,
      "ok".toList⟩, ['!'])

theorem overloads_agree_chunked :
    ((streamOverload textBeast chunkedRequest [] textBeast.blank).run
        (streamOverload textBeast chunkedRequest [] textBeast.blank).start
        chunkedResults).map State.seen = some chunkedSeen ∧
      ((transportOverload textBeast chunkedRequest {} textBeast.blank).run
        (transportOverload textBeast chunkedRequest {} textBeast.blank).start
        chunkedResults).map State.seen = some chunkedSeen := by
  have ran : ((transportOverload textBeast chunkedRequest {}
      textBeast.blank).run
        (transportOverload textBeast chunkedRequest {} textBeast.blank).start
        chunkedResults).map State.seen = some chunkedSeen := by
    decide +kernel
  have agree := @overloads_agree Char TextResponse textBeast chunkedRequest {}
    rfl textBeast.blank chunkedResults
  exact ⟨agree.trans ran, ran⟩

/-- The parsers that an exchange of a transport uses. -/
def Beast.codec (beast : Beast Byte Response) (status : Response → Nat) :
    Codec Byte Response where
  parser skip := beast.parser skip (80 * 1024 * 1024)
  status := status

/-- The point at which a transport waits in an exchange. -/
def Awaits.io (request : Request) :
    Awaits Byte Response → Option (IoPoint Byte Response)
  | .writing _ => some (.writing request)
  | .reading parsed => some (.reading request.skipsBody parsed)
  | .read result => some (.read result)
  | .completed _ => none

/-- The answer to the write or to the read as a whole. -/
def Result.answer : Result Byte → Answer Byte
  | .wrote _ ec => .ended ec false
  | .chunk bytes => .chunk bytes
  | .failed error => .ended (some error) false
  | .posted => .ended none false

/-- The answer a transport gets for a result: it is not told of a part of a
write. -/
def State.answers (s : State TransportOp Byte Response)
    (result : Result Byte) : Option (Answer Byte) :=
  match s.awaits, result with
  | .writing todo, .wrote size none =>
      if (todo.drop size).isEmpty then some result.answer else none
  | _, _ => some result.answer

/-- The exchange of a transport, by its answers. -/
def exchange (codec : Codec Byte Response) (endpoint : SessionEndpoint)
    (stream : Nat) (request : Request) (transport : Transport Byte) :
    Machine (Step Byte Response) (Answer Byte) where
  start := processOne request transport
  step next answer :=
    match next.2 with
    | .await point => point.resume codec endpoint stream next.1 answer
    | _ => none

/-- Where the coroutine stands while that is awaited. -/
def Awaits.coro : Awaits Byte Response → Coro
  | .writing _ => .written
  | _ => .read

/-- The operation waits at a point of an exchange. -/
structure State.Waits (request : Request) (io : IoPoint Byte Response)
    (s : State TransportOp Byte Response) : Prop where
  awaits : s.awaits.io request = some io
  coro : s.op.coro = s.awaits.coro
  req : s.op.req = request
  skip : s.objects.parser.skip = request.skipsBody
  bodyLimit : s.objects.parser.bodyLimit = 80 * 1024 * 1024
  running : s.objects.transport.running = true

/-- The state is the one that a step of the transport leads to. -/
def State.Shows (request : Request) (next : Step Byte Response)
    (s : State TransportOp Byte Response) : Prop :=
  s.objects.transport = next.1 ∧
    match next.2 with
    | .await (.exchanging io) => s.Waits request io
    | .complete ec => s.awaits = .completed ec
    | .deliver response =>
        s.awaits = .completed none ∧ s.objects.response = response
    | _ => False

namespace State.Waits

variable {beast : Beast Byte Response} {request : Request}
  {io : IoPoint Byte Response} {s : State TransportOp Byte Response}
  (status : Response → Nat)

theorem parser (waits : s.Waits request io) :
    beast.parser s.objects.parser.skip s.objects.parser.bodyLimit =
      (beast.codec status).parser request.skipsBody := by
  rw [waits.skip, waits.bodyLimit]
  rfl

theorem startRead (waits : s.Waits request io)
    (writing : s.op.coro = .written) (written : List Byte) :
    (enter beast (TransportOp.call none s.op
      { s.objects with written := written })).Shows request
      (processOneResume (beast.codec status) (.wrote request)
        s.objects.transport) := by
  have running := waits.running
  have parser : beast.parser s.objects.parser.skip
      s.objects.parser.bodyLimit =
        (beast.codec status).parser request.skipsBody := waits.parser status
  simp only [TransportOp.call, running, writing, Bool.not_true,
    Bool.false_eq_true, if_false, enter, State.feed, parser, processOneResume,
    Fetchpp.startRead]
  rcases ((beast.codec status).parser request.skipsBody).feed []
    s.objects.transport.buffer with ⟨rest, parsed | result⟩
  · refine ⟨?_, rfl, rfl, waits.req, waits.skip, waits.bodyLimit, running⟩
    simp [State.setBuffer, running]
  · refine ⟨?_, rfl, rfl, waits.req, waits.skip, waits.bodyLimit, running⟩
    simp [State.setBuffer, running]

theorem finishRead (waits : s.Waits request io) (reading : s.op.coro = .read)
    (buffer : List Byte) (result : Except ErrorCode Response) :
    ((s.setBuffer buffer).finishRead beast TransportOp.call result).Shows
      request (processOneResume (beast.codec status) (.ofExcept result)
        { s.objects.transport with buffer := buffer }) := by
  have running := waits.running
  cases result with
  | error error => exact ⟨rfl, rfl⟩
  | ok response =>
      simp only [State.finishRead, State.setBuffer, TransportOp.call, reading,
        running, Bool.not_true, Bool.false_eq_true, if_false,
        IoResult.ofExcept, processOneResume]
      exact ⟨rfl, rfl, rfl⟩

/-- A step is part of a write, or the step of a transport with that answer. -/
theorem step {after : State TransportOp Byte Response} {result : Result Byte}
    (waits : s.Waits request io) (endpoint : SessionEndpoint) (stream : Nat)
    (stepped : s.step beast TransportOp.call result = some after) :
    (s.answers result = none ∧ after.Waits request io ∧
      after.objects.transport = s.objects.transport) ∨
    s.answers result = some result.answer ∧
      ∃ next, (Point.exchanging io).resume (beast.codec status) endpoint stream
          s.objects.transport result.answer = some next ∧
        after.Shows request next := by
  have place := waits.coro
  have awaited := waits.awaits
  have parser : beast.parser s.objects.parser.skip
      s.objects.parser.bodyLimit =
        (beast.codec status).parser request.skipsBody := waits.parser status
  unfold State.step at stepped
  split at stepped
  case h_1 todo size awaits =>
    rw [awaits] at place awaited
    obtain rfl := Option.some.inj awaited
    dsimp only at stepped
    split at stepped
    case isTrue done =>
      refine .inr ⟨by simp [State.answers, awaits, done], ?_⟩
      obtain rfl := Option.some.inj stepped
      exact ⟨_, rfl, waits.startRead status place _⟩
    case isFalse more =>
      obtain rfl := Option.some.inj stepped
      exact .inl ⟨by simp [State.answers, awaits, more],
        ⟨rfl, place, waits.req, waits.skip, waits.bodyLimit, waits.running⟩,
        rfl⟩
  case h_2 todo size error awaits =>
    refine .inr ⟨by simp [State.answers, awaits], ?_⟩
    rw [awaits] at awaited
    obtain rfl := Option.some.inj awaited
    obtain rfl := Option.some.inj stepped
    exact ⟨_, rfl, rfl, rfl⟩
  case h_3 parsed bytes awaits =>
    refine .inr ⟨by simp [State.answers, awaits], ?_⟩
    rw [awaits] at place awaited
    obtain rfl := Option.some.inj awaited
    simp only [State.feed, State.setBuffer, parser] at stepped
    simp only [Result.answer, Point.resume, IoPoint.resume,
      Transport.afterAnswer, Answer.closes, Bool.false_eq_true, if_false]
    generalize ((beast.codec status).parser request.skipsBody).feed parsed
      (s.objects.transport.buffer ++ bytes) = fed at stepped ⊢
    obtain ⟨rest, parsed' | result'⟩ := fed
    · obtain rfl := Option.some.inj stepped
      exact ⟨_, rfl, rfl, rfl, place, waits.req, waits.skip, waits.bodyLimit,
        waits.running⟩
    · obtain rfl := Option.some.inj stepped
      exact ⟨_, rfl, waits.finishRead status place rest result'⟩
  case h_4 parsed awaits =>
    refine .inr ⟨by simp [State.answers, awaits], ?_⟩
    rw [awaits] at place awaited
    obtain rfl := Option.some.inj awaited
    obtain rfl := Option.some.inj stepped
    rw [parser]
    refine ⟨_, rfl, waits.finishRead status place _ _⟩
  case h_5 parsed error notEof awaits =>
    refine .inr ⟨by simp [State.answers, awaits], ?_⟩
    rw [awaits] at awaited
    obtain rfl := Option.some.inj awaited
    obtain rfl := Option.some.inj stepped
    refine ⟨(s.objects.transport.cancelTimer, .complete (some error)), ?_,
      rfl, rfl⟩
    cases error with
    | eof => exact (notEof rfl).elim
    | _ => rfl
  case h_6 result' awaits =>
    refine .inr ⟨by simp [State.answers, awaits], ?_⟩
    rw [awaits] at place awaited
    obtain rfl := Option.some.inj awaited
    obtain rfl := Option.some.inj stepped
    exact ⟨_, rfl, waits.finishRead status place _ _⟩
  case h_7 => cases stepped

end State.Waits

theorem transportOverload_starts (beast : Beast Byte Response)
    (request : Request) (transport : Transport Byte) (response : Response) :
    (transportOverload beast request transport response).start.Shows request
      (processOne request transport) := by
  cases running : transport.running with
  | false =>
      simp only [transportOverload, TransportOp.call, processOne, running,
        Bool.not_false, if_true]
      exact ⟨rfl, rfl⟩
  | true =>
      simp only [transportOverload, TransportOp.call, processOne, running,
        Bool.not_true, Bool.false_eq_true, if_false]
      exact ⟨rfl, rfl, rfl, rfl, rfl, rfl, running⟩

/-- A step the transport is not told of leaves it where it is, any other is its
step with that answer. -/
theorem State.Shows.step {beast : Beast Byte Response} {request : Request}
    {next : Step Byte Response} {s after : State TransportOp Byte Response}
    {result : Result Byte} (shows : s.Shows request next)
    (status : Response → Nat) (endpoint : SessionEndpoint) (stream : Nat)
    (stepped : s.step beast TransportOp.call result = some after) :
    (s.answers result = none ∧ after.Shows request next) ∨
      s.answers result = some result.answer ∧
        ∃ next', (exchange (beast.codec status) endpoint stream request
            next.1).step next result.answer = some next' ∧
          after.Shows request next' := by
  obtain ⟨transport, yield⟩ := next
  obtain ⟨rfl, stands⟩ := shows
  have ended : ∀ ec, s.awaits ≠ .completed ec := by
    intro ec awaits
    simp [State.step, awaits] at stepped
  cases yield with
  | await point =>
      cases point with
      | exchanging io =>
          rcases stands.step status endpoint stream stepped with
            ⟨untold, waits, same⟩ | told
          · exact .inl ⟨untold, same, waits⟩
          · exact .inr told
      | _ => exact stands.elim
  | complete ec => exact (ended ec stands).elim
  | deliver response => exact (ended none stands.1).elim
  | _ => exact stands.elim

theorem transportOverload_simulation (beast : Beast Byte Response)
    (status : Response → Nat) (endpoint : SessionEndpoint) (stream : Nat)
    (request : Request) (transport : Transport Byte) (response : Response) :
    Machine.Simulation (transportOverload beast request transport response)
      (exchange (beast.codec status) endpoint stream request transport)
      (fun s next => s.Shows request next) State.answers where
  start := transportOverload_starts beast request transport response
  silent := by
    intro before result after next shows stepped untold
    rcases shows.step status endpoint stream stepped with ⟨_, shows⟩ |
      ⟨told, _⟩
    · exact shows
    · cases untold.symm.trans told
  visible := by
    intro before result after next answer shows stepped told
    rcases shows.step status endpoint stream stepped with ⟨untold, _⟩ |
      ⟨answers, matched⟩
    · cases untold.symm.trans told
    · cases told.symm.trans answers
      exact matched

/-- Whatever the stream answers, the `transport_op` goes through the exchange of
a transport, and ends as that does. -/
theorem transportOverload_exchanges {beast : Beast Byte Response}
    {request : Request} {transport : Transport Byte} {response : Response}
    {results : List (Result Byte)} {s : State TransportOp Byte Response}
    (status : Response → Nat) (endpoint : SessionEndpoint) (stream : Nat)
    (ran : (transportOverload beast request transport response).run
      (transportOverload beast request transport response).start results =
        some s) :
    ∃ next, (exchange (beast.codec status) endpoint stream request
        transport).run (processOne request transport)
        ((transportOverload beast request transport response).labels
          State.answers (transportOverload beast request transport
            response).start results) = some next ∧
      s.Shows request next :=
  (transportOverload_simulation beast status endpoint stream request transport
    response).run
      (transportOverload_starts beast request transport response) ran

theorem exchanges_of_chunkedResults :
    ∃ s : State TransportOp Char TextResponse, s.seen = chunkedSeen ∧
      ∃ next, (exchange (textBeast.codec TextResponse.status)
          (.plain ⟨"localhost", 80⟩) 0 chunkedRequest {}).run
          (processOne chunkedRequest {})
          ((transportOverload textBeast chunkedRequest {}
            textBeast.blank).labels State.answers (transportOverload textBeast
              chunkedRequest {} textBeast.blank).start chunkedResults) =
            some next ∧
        s.Shows chunkedRequest next := by
  have executed : ((transportOverload textBeast chunkedRequest {}
      textBeast.blank).run
        (transportOverload textBeast chunkedRequest {} textBeast.blank).start
        chunkedResults).map State.seen = some chunkedSeen := by
    decide +kernel
  obtain ⟨s, ran, seen⟩ := Option.map_eq_some_iff.mp executed
  exact ⟨s, seen, transportOverload_exchanges _ _ _ ran⟩

end Fetchpp.ProcessOne

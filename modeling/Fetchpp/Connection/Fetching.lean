import Fetchpp.Connection.Dropping

/-!
# The one-shot fetch

`simple_fetch_op` owns a transport: it connects it, makes one exchange and posts
its handler with what the exchange gave.  It is resumed with the error of the
connect like with that of the exchange, but looks at neither, so that a failed
connect is followed by the exchange and its error is lost.
-/

namespace Fetchpp

open Http Lib

variable {Byte Response : Type}

/-- The transport is a tcp or a TLS transport. -/
def Endpoint.session : {isSecure : Bool} → Endpoint isSecure → SessionEndpoint
  | false, endpoint => .plain endpoint
  | true, endpoint => .secure endpoint

/-- The stage of the connect that is answered succeeds: the resolve with the
setting of the SNI name, the connect of the socket with the setting of
`TCP_NODELAY`, or the handshake. -/
def Answer.succeeds (isSecure : Bool) : Answer Byte → Bool
  | .resolved ec sni _ => ec.isNone && (!isSecure || sni.isNone)
  | .connected ec noDelay _ => ec.isNone && noDelay.isNone
  | .ended ec _ => ec.isNone
  | .chunk _ => false

private theorem resolved_answered {codec : Codec Byte Response}
    {isSecure : Bool} {endpoint : Endpoint isSecure} {stream : Nat}
    {t : Transport Byte} {domain service : String} {answer : Answer Byte}
    {next : Step Byte Response}
    (resumed : (Point.resolving domain service).resume codec endpoint.session
      stream t answer = some next) :
    (answer.succeeds isSecure = true ∧ next.2 = .await .connecting) ∨
    (answer.succeeds isSecure = false ∧
      ∃ error, next.2 = .complete (some error)) := by
  cases answer with
  | connected ec noDelay leavesOpen => cases isSecure <;> cases resumed
  | ended ec closes => cases isSecure <;> cases resumed
  | chunk bytes => cases isSecure <;> cases resumed
  | resolved ec sni opens =>
      cases isSecure with
      | false =>
          cases ec with
          | none =>
              obtain rfl := Option.some.inj resumed
              exact .inl ⟨rfl, rfl⟩
          | some error =>
              obtain rfl := Option.some.inj resumed
              exact .inr ⟨rfl, error, rfl⟩
      | true =>
          cases ec with
          | none =>
              obtain rfl := Option.some.inj resumed
              cases sni with
              | none => exact .inl ⟨rfl, rfl⟩
              | some error => exact .inr ⟨rfl, error, rfl⟩
          | some error =>
              obtain rfl := Option.some.inj resumed
              exact .inr ⟨rfl, error, rfl⟩

/-- A connect of a tcp or TLS transport goes on exactly as long as its stages
succeed. -/
theorem connect_answered {codec : Codec Byte Response} {isSecure : Bool}
    {endpoint : Endpoint isSecure} {stream : Nat} {t : Transport Byte}
    {point : Point Byte Response} {answer : Answer Byte}
    {next : Step Byte Response} (connecting : point.kind = .connect)
    (resumed : point.resume codec endpoint.session stream t answer =
      some next) :
    (answer.succeeds isSecure = true ∧
      (next.2 = .complete none ∨
        ∃ later, next.2 = .await later ∧ later.kind = .connect)) ∨
    (answer.succeeds isSecure = false ∧
      (next.2 = .escape ∨ ∃ error, next.2 = .complete (some error))) := by
  cases point with
  | exchanging io => cases connecting
  | closePosted => cases connecting
  | tcpClosing => cases connecting
  | shuttingDown => cases connecting
  | proxying io =>
      cases isSecure <;> simp [Point.resume, Endpoint.session] at resumed
  | resolving domain service =>
      rcases resolved_answered resumed with ⟨succeeds, awaits⟩ | ⟨fails, error⟩
      · exact .inl ⟨succeeds, .inr ⟨_, awaits, rfl⟩⟩
      · exact .inr ⟨fails, .inr error⟩
  | connecting =>
      cases answer with
      | resolved ec sni opens => cases isSecure <;> cases resumed
      | ended ec closes => cases isSecure <;> cases resumed
      | chunk bytes => cases isSecure <;> cases resumed
      | connected ec noDelay leavesOpen =>
          cases isSecure with
          | false =>
              obtain rfl := Option.some.inj resumed
              cases ec with
              | some error => exact .inr ⟨rfl, .inr ⟨error, rfl⟩⟩
              | none =>
                  cases noDelay with
                  | none => exact .inl ⟨rfl, .inl rfl⟩
                  | some error => exact .inr ⟨rfl, .inl rfl⟩
          | true =>
              obtain rfl := Option.some.inj resumed
              cases ec with
              | some error => exact .inr ⟨rfl, .inr ⟨error, rfl⟩⟩
              | none =>
                  cases noDelay with
                  | none => exact .inl ⟨rfl, .inr ⟨_, rfl, rfl⟩⟩
                  | some error => exact .inr ⟨rfl, .inr ⟨error, rfl⟩⟩
  | handshaking =>
      cases answer with
      | resolved ec sni opens => cases isSecure <;> cases resumed
      | connected ec noDelay leavesOpen => cases isSecure <;> cases resumed
      | chunk bytes => cases isSecure <;> cases resumed
      | ended ec closes =>
          cases isSecure with
          | false => cases resumed
          | true =>
              obtain rfl := Option.some.inj resumed
              cases ec with
              | none => exact .inl ⟨rfl, .inl rfl⟩
              | some error => exact .inr ⟨rfl, .inr ⟨error, rfl⟩⟩

namespace Fetch

/-- What `simple_fetch_op` waits for. -/
inductive Awaits (Byte Response : Type) where
  | connect (point : Point Byte Response) (stream : Nat)
  | exchange (point : Point Byte Response) (stream : Nat)
  | posted (ec : Option ErrorCode) (response : Response)
  /-- the handler was called, or an exception took it along -/
  | nothing

/-- What happens in a fetch. -/
inductive Note (Response : Type) where
  | connected (ec : Option ErrorCode)
  /-- `async_process_one` is called -/
  | exchanges
  | exchanged (ec : Option ErrorCode) (response : Response)
  | handled (ec : Option ErrorCode) (response : Response)

/-- `base_state`, with the log of what happens. -/
structure State (Byte Response : Type) where
  transport : Transport Byte
  awaits : Awaits Byte Response
  response : Response
  log : List (Note Response)

/-- `simple_fetch_op::operator()` resumed by `async_process_one`: it posts the
handler. -/
def processed (ec : Option ErrorCode) (s : State Byte Response) :
    State Byte Response :=
  { s with
    awaits := .posted ec s.response
    log := s.log ++ [.exchanged ec s.response] }

/-- `async_process_one` waits, or resumes the operation. -/
def exchange (next : Step Byte Response) (s : State Byte Response) :
    State Byte Response :=
  match next.2 with
  | .await point =>
      { s with
        transport := next.1
        awaits := .exchange point next.1.stream }
  | .complete ec => processed ec { s with transport := next.1 }
  | .completeFirst ec =>
      processed ec { s with transport := next.1.cancelTimer }
  | .deliver response =>
      processed none { s with
        transport := next.1
        response := response }
  | .escape =>
      { s with
        transport := next.1
        awaits := .nothing }

/-- `simple_fetch_op::operator()` resumed by `async_connect`. -/
def connected (request : Request) (ec : Option ErrorCode)
    (s : State Byte Response) : State Byte Response :=
  exchange (processOne request s.transport)
    { s with log := s.log ++ [.connected ec, .exchanges] }

def connect (request : Request) (next : Step Byte Response)
    (s : State Byte Response) : State Byte Response :=
  match next.2 with
  | .await point =>
      { s with
        transport := next.1
        awaits := .connect point next.1.stream }
  | .complete ec => connected request ec { s with transport := next.1 }
  | .completeFirst ec =>
      let s := connected request ec { s with transport := next.1 }
      { s with transport := s.transport.cancelTimer }
  | .deliver _ => connected request none { s with transport := next.1 }
  | .escape =>
      { s with
        transport := next.1
        awaits := .nothing }

inductive Event (Byte : Type) where
  /-- what the operation waits for is answered -/
  | answer (answer : Answer Byte)
  /-- the posted handler runs -/
  | run
  deriving DecidableEq, Repr

variable (codec : Codec Byte Response) {isSecure : Bool}
  (endpoint : Endpoint isSecure) (request : Request) (blank : Response)

/-- `async_fetch`: the operation is dispatched and connects its transport. -/
def start : State Byte Response :=
  connect request (Fetchpp.connect endpoint.session {})
    { transport := {}, awaits := .nothing, response := blank, log := [] }

def step (s : State Byte Response) (event : Event Byte) :
    Option (State Byte Response) :=
  match s.awaits, event with
  | .connect point stream, .answer answer =>
      (point.resume codec endpoint.session stream s.transport answer).map
        (fun next => connect request next s)
  | .exchange point stream, .answer answer =>
      (point.resume codec endpoint.session stream s.transport answer).map
        (fun next => exchange next s)
  | .posted ec response, .run =>
      some { s with
        awaits := .nothing
        log := s.log ++ [.handled ec response] }
  | _, _ => none

def machine : Lib.Machine (State Byte Response) (Event Byte) where
  start := start endpoint request blank
  step := step codec endpoint request

def Note.handled? : Note Response → Bool
  | .handled _ _ => true
  | _ => false

def Awaits.pending : Awaits Byte Response → Nat
  | .nothing => 0
  | _ => 1

/-- The handler is called once, with the error of the connect that failed, or
with the error and the response of the exchange; no exchange is started on a
transport whose connect failed. -/
structure Sound (s : State Byte Response) : Prop where
  once : s.log.countP Note.handled? + s.awaits.pending = 1
  told : ∀ ec response, .handled ec response ∈ s.log →
    (.connected none ∈ s.log ∧ .exchanged ec response ∈ s.log) ∨
    (ec ≠ none ∧ .connected ec ∈ s.log)
  unsent : ∀ error, .connected (some error) ∈ s.log → .exchanges ∉ s.log

/-- The stage of the connect that is answered, if one is, succeeds. -/
def Event.connects (isSecure : Bool) (s : State Byte Response)
    (event : Event Byte) : Bool :=
  match s.awaits, event with
  | .connect _ _, .answer given => given.succeeds isSecure
  | _, _ => true

/-- What is answered comes to its end or to a later stage, unless it goes on
reading; and a handler that was posted can run. -/
def Progresses (codec : Codec Byte Response) {isSecure : Bool}
    (endpoint : Endpoint isSecure) (request : Request)
    (s : State Byte Response) : Prop :=
  match s.awaits with
  | .connect point stream => ∀ answer next,
      answer.succeeds isSecure = true →
      point.resume codec endpoint.session stream s.transport answer =
        some next → Connection.Call.Advances point next
  | .exchange point stream => ∃ io, point = .exchanging io ∧ ∀ answer next,
      point.resume codec endpoint.session stream s.transport answer =
        some next → Connection.Call.Proceeds io next.2
  | .posted ec response => ∃ t, step codec endpoint request s .run = some t ∧
      t.log = s.log ++ [.handled ec response]
  | .nothing => ∃ ec response, .handled ec response ∈ s.log

inductive Course (s : State Byte Response) : Prop where
  | connecting (point : Point Byte Response) (stream : Nat)
      (awaits : s.awaits = .connect point stream)
      (kind : point.kind = .connect) (log : s.log = [])
  | exchanging (io : IoPoint Byte Response) (stream : Nat)
      (awaits : s.awaits = .exchange (.exchanging io) stream)
      (log : s.log = [.connected none, .exchanges])
  | posted (ec : Option ErrorCode) (response : Response)
      (awaits : s.awaits = .posted ec response)
      (log : s.log = [.connected none, .exchanges, .exchanged ec response])
  | handled (ec : Option ErrorCode) (response : Response)
      (awaits : s.awaits = .nothing)
      (log : s.log = [.connected none, .exchanges, .exchanged ec response,
        .handled ec response])

theorem Course.sound {s : State Byte Response} (course : Course s) :
    Sound s := by
  cases course with
  | connecting point stream awaits kind log =>
      constructor <;> simp [awaits, log, Awaits.pending]
  | exchanging io stream awaits log =>
      constructor <;> simp [awaits, log, Awaits.pending, Note.handled?]
  | posted ec response awaits log =>
      constructor <;> simp [awaits, log, Awaits.pending, Note.handled?]
  | handled ec response awaits log =>
      refine ⟨?_, ?_, ?_⟩
      · simp [awaits, log, Awaits.pending, Note.handled?]
      · intro ec' response' member
        rw [log] at member ⊢
        have same : ec' = ec ∧ response' = response := by simpa using member
        obtain ⟨rfl, rfl⟩ := same
        exact .inl (by simp)
      · simp [log]

theorem Course.of_exchange {next : Step Byte Response} {s : State Byte Response}
    (ofExchange : next.2.OfExchange)
    (log : s.log = [.connected none, .exchanges]) :
    Course (exchange next s) := by
  obtain ⟨t, yield⟩ := next
  cases yield with
  | await point =>
      cases point with
      | exchanging io => exact .exchanging io t.stream rfl log
      | resolving domain service => exact ofExchange.elim
      | connecting => exact ofExchange.elim
      | proxying io => exact ofExchange.elim
      | handshaking => exact ofExchange.elim
      | closePosted => exact ofExchange.elim
      | tcpClosing => exact ofExchange.elim
      | shuttingDown => exact ofExchange.elim
  | complete ec =>
      exact .posted ec s.response rfl (by simp [exchange, processed, log])
  | completeFirst ec => exact ofExchange.elim
  | deliver response =>
      exact .posted none response rfl (by simp [exchange, processed, log])
  | escape => exact ofExchange.elim

section Steps

variable {codec : Codec Byte Response} {isSecure : Bool}
  {endpoint : Endpoint isSecure} {request : Request} {blank : Response}
  {s t : State Byte Response} {event : Event Byte}

theorem start_course :
    Course (start endpoint request blank : State Byte Response) := by
  cases isSecure with
  | false => exact .connecting _ _ rfl rfl rfl
  | true => exact .connecting _ _ rfl rfl rfl

/-- A connect that fails is followed by the exchange. -/
theorem not_sound_of_failed {u : State Byte Response} {error : ErrorCode} :
    ¬ Sound (connected request (some error) u) := by
  intro sound
  have notes : .connected (some error) ∈
        (connected request (some error) u).log ∧
      .exchanges ∈ (connected request (some error) u).log := by
    unfold connected exchange
    split <;> simp [processed]
  exact sound.unsent error notes.1 notes.2

theorem step_iff (course : Course s)
    (stepped : step codec endpoint request s event = some t) :
    (event.connects isSecure s = true ∧ Course t) ∨
    (event.connects isSecure s = false ∧ ¬ Sound t) := by
  cases course with
  | connecting point stream awaits kind log =>
      cases event with
      | run => simp [step, awaits] at stepped
      | answer answer =>
          simp only [step, awaits] at stepped
          obtain ⟨next, resumed, rfl⟩ := Option.map_eq_some_iff.mp stepped
          simp only [Event.connects, awaits]
          rcases connect_answered kind resumed with
            ⟨succeeds, completes | ⟨later, waits, stays⟩⟩ |
            ⟨fails, escapes | ⟨error, completes⟩⟩
          · refine .inl ⟨succeeds, ?_⟩
            simp only [connect, completes, connected]
            exact .of_exchange (processOne_ofExchange _) (by simp [log])
          · refine .inl ⟨succeeds, ?_⟩
            exact .connecting later next.1.stream (by simp [connect, waits])
              stays (by simp [connect, waits, log])
          · refine .inr ⟨fails, ?_⟩
            intro sound
            have once := sound.once
            simp [connect, escapes, log, Awaits.pending] at once
          · refine .inr ⟨fails, ?_⟩
            simp only [connect, completes]
            exact not_sound_of_failed
  | exchanging io stream awaits log =>
      cases event with
      | run => simp [step, awaits] at stepped
      | answer answer =>
          simp only [step, awaits] at stepped
          obtain ⟨next, resumed, rfl⟩ := Option.map_eq_some_iff.mp stepped
          obtain ⟨result, u, _, _, _, _, rfl⟩ :=
            Point.resume_exchanging resumed
          exact .inl ⟨by simp [Event.connects, awaits],
            .of_exchange (processOneResume_ofExchange _ _) log⟩
  | posted ec response awaits log =>
      cases event with
      | answer answer => simp [step, awaits] at stepped
      | run =>
          simp only [step, awaits, Option.some.injEq] at stepped
          refine .inl ⟨by simp [Event.connects, awaits], ?_⟩
          exact .handled ec response (by rw [← stepped])
            (by simp [← stepped, log])
  | handled ec response awaits log =>
      cases event <;> simp [step, awaits] at stepped

theorem Course.progresses (course : Course s) :
    Progresses codec endpoint request s := by
  cases course with
  | connecting point stream awaits kind log =>
      simp only [Progresses, awaits]
      intro answer next succeeds resumed
      rcases Connection.Call.advances_of_connects
        (Point.connects resumed kind) with escapes | advances
      · rcases connect_answered kind resumed with
          ⟨_, completes | ⟨later, waits, _⟩⟩ | ⟨fails, _⟩
        · simp [escapes] at completes
        · simp [escapes] at waits
        · simp [succeeds] at fails
      · exact advances
  | exchanging io stream awaits log =>
      simp only [Progresses, awaits]
      refine ⟨io, rfl, ?_⟩
      intro answer next resumed
      obtain ⟨result, u, arrived, _, _, _, rfl⟩ :=
        Point.resume_exchanging resumed
      exact Connection.Call.proceeds_of_resumed arrived u
  | posted ec response awaits log =>
      simp only [Progresses, awaits]
      refine ⟨{ s with
        awaits := .nothing
        log := s.log ++ [.handled ec response] }, ?_, rfl⟩
      simp only [step, awaits]
  | handled ec response awaits log =>
      simp only [Progresses, awaits]
      exact ⟨ec, response, by simp [log]⟩

/-- In every run of a fetch whose connect succeeds, its handler is called once
with what the exchange gave; a step that lets the connect fail is followed by
the exchange, or takes the handler along. -/
theorem reached_sound
    (reached : (machine codec endpoint request blank).ReachedBy
      (fun before event => event.connects isSecure before = true) s) :
    (Sound s ∧ Progresses codec endpoint request s) ∧ ∀ event t,
      (machine codec endpoint request blank).step s event = some t →
      (Sound t ↔ event.connects isSecure s = true) := by
  have course : Course s := by
    refine reached.invariant start_course ?_
    intro before event after _ course connects stepped
    rcases step_iff course stepped with ⟨_, course⟩ | ⟨fails, _⟩
    · exact course
    · simp [connects] at fails
  refine ⟨⟨course.sound, course.progresses⟩, ?_⟩
  intro event t stepped
  rcases step_iff course stepped with ⟨connects, course⟩ | ⟨fails, unsound⟩
  · exact iff_of_true course.sound connects
  · exact iff_of_false unsound (by simp [fails])

end Steps

/-- A fetch over TLS. -/
def fetchedRun : List (Event Char) :=
  [.answer (.resolved none none true), .answer (.connected none none true),
    .answer (.ended none false), .answer (.ended none false),
    .answer (.chunk "HTTP/1.1 200 OK\r\nContent-Length: 0\r\n\r\n".toList),
    .run]

theorem sound_of_fetchedRun :
    ∃ s, (machine textCodec (⟨"target", 443⟩ : Endpoint true) exampleRequest
          ⟨0, [], []⟩).runWhere (fun before event =>
            event.connects true before = true)
          (start (⟨"target", 443⟩ : Endpoint true) exampleRequest ⟨0, [], []⟩)
          fetchedRun = some s ∧
      Sound s := by
  have executed : ((machine textCodec (⟨"target", 443⟩ : Endpoint true)
        exampleRequest ⟨0, [], []⟩).runWhere (fun before event =>
          event.connects true before = true)
        (start (⟨"target", 443⟩ : Endpoint true) exampleRequest ⟨0, [], []⟩)
        fetchedRun).isSome = true := by
    decide +kernel
  obtain ⟨s, run⟩ := Option.isSome_iff_exists.mp executed
  exact ⟨s, run,
    (reached_sound (Machine.reachedBy_of_runWhere fetchedRun run)).1.1⟩

/-- The name of the host does not resolve, and the request is written. -/
theorem unresolved_not_sound :
    ¬∀ (isSecure : Bool) (endpoint : Endpoint isSecure)
      (s : State Char TextResponse),
      (machine textCodec endpoint exampleRequest ⟨0, [], []⟩).Reached s →
      Sound s := by
  intro sound
  have executed : ((machine textCodec (⟨"target", 80⟩ : Endpoint false)
        exampleRequest ⟨0, [], []⟩).run
        (start (⟨"target", 80⟩ : Endpoint false) exampleRequest ⟨0, [], []⟩)
        [.answer (.resolved (some (.other 1)) none false)]).map
        State.log = some [.connected (some (.other 1)), .exchanges] := by
    rfl
  obtain ⟨s, run, log⟩ := Option.map_eq_some_iff.mp executed
  have unsent := (sound false _ s (Machine.reached_of_run _ run)).unsent
    (.other 1)
  rw [log] at unsent
  exact unsent (by simp) (by simp)

end Fetch

end Fetchpp

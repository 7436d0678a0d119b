import Fetchpp.Transport.Core

/-!
# What the steps of an operation have in common

Each operation of a transport keeps to its own points, and only two of them
replace the stream: a connect of a basic transport that is not running, and the
end of a close of a tunnel.
-/

namespace Fetchpp

open Http

variable {Byte Response : Type}

/-- What `IoPoint.resume` does: what stays in the buffer, and how the exchange
goes on. -/
inductive IoPoint.Resumed (codec : Codec Byte Response) (buffer : List Byte) :
    IoPoint Byte Response → Answer Byte → List Byte →
    IoResult Byte Response → Prop where
  | wrote {request : Request} {closes : Bool} :
      Resumed codec buffer (.writing request) (.ended none closes) buffer
        (.wrote request)
  | writeFailed {request : Request} {error : ErrorCode} {closes : Bool} :
      Resumed codec buffer (.writing request) (.ended (some error) closes)
        buffer (.failed error)
  | more {skip : Bool} {parsed bytes rest parsed' : List Byte}
      (fed : (codec.parser skip).feed parsed (buffer ++ bytes) =
        (rest, .more parsed')) :
      Resumed codec buffer (.reading skip parsed) (.chunk bytes) rest
        (.pending (.reading skip parsed'))
  | read {skip : Bool} {parsed bytes rest : List Byte}
      {result : Except ErrorCode Response}
      (fed : (codec.parser skip).feed parsed (buffer ++ bytes) =
        (rest, .ended result)) :
      Resumed codec buffer (.reading skip parsed) (.chunk bytes) rest
        (.ofExcept result)
  | finished {skip : Bool} {parsed : List Byte} {closes : Bool} :
      Resumed codec buffer (.reading skip parsed) (.ended (some .eof) closes)
        buffer (.ofExcept ((codec.parser skip).finish (parsed ++ buffer)))
  | readFailed {skip : Bool} {parsed : List Byte} {error : ErrorCode}
      {closes : Bool} (notEof : error ≠ .eof) :
      Resumed codec buffer (.reading skip parsed) (.ended (some error) closes)
        buffer (.failed error)
  | posted {result : Except ErrorCode Response} {closes : Bool} :
      Resumed codec buffer (.read result) (.ended none closes) buffer
        (.ofExcept result)

theorem IoPoint.resume_resumed {codec : Codec Byte Response}
    {buffer rest : List Byte} {io : IoPoint Byte Response}
    {answer : Answer Byte} {result : IoResult Byte Response}
    (resumed : io.resume codec buffer answer = some (rest, result)) :
    io.Resumed codec buffer answer rest result := by
  unfold IoPoint.resume at resumed
  split at resumed
  case h_1 request closes =>
    cases resumed
    exact .wrote
  case h_2 request error closes =>
    cases resumed
    exact .writeFailed
  case h_3 skip parsed bytes =>
    split at resumed
    case h_1 rest parsed' fed =>
      cases resumed
      exact .more fed
    case h_2 rest result fed =>
      cases resumed
      exact .read fed
  case h_4 skip parsed closes =>
    cases resumed
    exact .finished
  case h_5 skip parsed error closes notEof =>
    cases resumed
    exact .readFailed notEof
  case h_6 result closes =>
    cases resumed
    exact .posted
  case h_7 => cases resumed

theorem IoPoint.Resumed.reads {codec : Codec Byte Response}
    {buffer rest : List Byte} {io later : IoPoint Byte Response}
    {answer : Answer Byte} {result : IoResult Byte Response}
    (resumed : io.Resumed codec buffer answer rest result)
    (pending : result = .pending later) :
    ∃ skip parsed, later = .reading skip parsed := by
  have ended : ∀ read : Except ErrorCode Response,
      IoResult.ofExcept read ≠ (.pending later : IoResult Byte Response) := by
    intro read
    cases read <;> nofun
  cases resumed with
  | wrote => cases pending
  | writeFailed => cases pending
  | more fed => exact ⟨_, _, (IoResult.pending.inj pending).symm⟩
  | read fed => exact (ended _ pending).elim
  | finished => exact (ended _ pending).elim
  | readFailed => cases pending
  | posted => exact (ended _ pending).elim

theorem Point.resume_exchanging {codec : Codec Byte Response}
    {endpoint : SessionEndpoint} {stream : Nat} {t : Transport Byte}
    {io : IoPoint Byte Response} {answer : Answer Byte}
    {next : Step Byte Response}
    (resumed : (Point.exchanging io).resume codec endpoint stream t answer =
      some next) :
    ∃ (result : IoResult Byte Response) (u : Transport Byte),
      io.Resumed codec t.buffer answer u.buffer result ∧
      u.running = t.running ∧ u.stream = t.stream ∧
      u.isOpen = (t.afterAnswer stream answer).isOpen ∧
      next = processOneResume codec result u := by
  simp only [Point.resume] at resumed
  split at resumed
  case h_1 rest result answered =>
    rw [Transport.afterAnswer_buffer] at answered
    exact ⟨result, { t.afterAnswer stream answer with buffer := rest },
      IoPoint.resume_resumed answered, t.afterAnswer_running stream answer,
      t.afterAnswer_stream stream answer, rfl,
      (Option.some.inj resumed).symm⟩
  case h_2 => cases resumed

theorem startRead_cases (codec : Codec Byte Response) (skip : Bool)
    (buffer : List Byte) :
    (∃ rest parsed, (codec.parser skip).feed [] buffer = (rest, .more parsed) ∧
      startRead codec skip buffer = (rest, .reading skip parsed)) ∨
    (∃ rest result, (codec.parser skip).feed [] buffer =
        (rest, .ended result) ∧
      startRead codec skip buffer = (rest, .read result)) := by
  unfold startRead
  split
  case h_1 rest parsed fed => exact .inl ⟨rest, parsed, fed, rfl⟩
  case h_2 rest result fed => exact .inr ⟨rest, result, fed, rfl⟩

/-- The three operations of a transport. -/
inductive Kind where
  | connect
  | exchange
  | close
  deriving DecidableEq, Repr

def Point.kind : Point Byte Response → Kind
  | .resolving _ _ => .connect
  | .connecting => .connect
  | .proxying _ => .connect
  | .handshaking => .connect
  | .exchanging _ => .exchange
  | .closePosted => .close
  | .tcpClosing => .close
  | .shuttingDown => .close

theorem Point.exchanging_of_kind {point : Point Byte Response}
    (exchanging : point.kind = .exchange) : ∃ io, point = .exchanging io := by
  cases point with
  | exchanging io => exact ⟨io, rfl⟩
  | resolving domain service => cases exchanging
  | connecting => cases exchanging
  | proxying io => cases exchanging
  | handshaking => cases exchanging
  | closePosted => cases exchanging
  | tcpClosing => cases exchanging
  | shuttingDown => cases exchanging

/-- An operation goes on at a point of its kind. -/
def Yield.StaysIn (kind : Kind) : Yield Byte Response → Prop
  | .await point => point.kind = kind
  | _ => True

/-- A step that neither replaces the stream nor leaves the kind. -/
structure Step.Keeps (kind : Kind) (t : Transport Byte)
    (next : Step Byte Response) : Prop where
  stream : next.1.stream = t.stream
  stays : next.2.StaysIn kind

/-- The same transport, up to its timer. -/
structure Transport.Like (t u : Transport Byte) : Prop where
  buffer : u.buffer = t.buffer
  running : u.running = t.running
  stream : u.stream = t.stream
  isOpen : u.isOpen = t.isOpen

theorem Transport.Like.refl (t : Transport Byte) : t.Like t :=
  ⟨rfl, rfl, rfl, rfl⟩

theorem Transport.like_cancelTimer (t : Transport Byte) : t.Like t.cancelTimer :=
  ⟨rfl, rfl, rfl, rfl⟩

theorem Transport.isOpen_of_afterAnswer {t : Transport Byte} {stream : Nat}
    {answer : Answer Byte} (isOpen : (t.afterAnswer stream answer).isOpen = true) :
    t.isOpen = true := by
  unfold afterAnswer setOpen at isOpen
  split at isOpen
  · split at isOpen
    · cases isOpen
    · exact isOpen
  · exact isOpen

theorem Transport.afterAnswer_closed {t : Transport Byte}
    (closed : t.isOpen = false) {stream : Nat} {answer : Answer Byte} :
    (t.afterAnswer stream answer).isOpen = false := by
  cases isOpen : (t.afterAnswer stream answer).isOpen with
  | false => rfl
  | true => simp [isOpen_of_afterAnswer isOpen] at closed

def Yield.Ends (ec : Option ErrorCode) (yield : Yield Byte Response) : Prop :=
  yield = .complete ec ∨ yield = .completeFirst ec

/-- How a connect that finds `t` goes on when it is answered. -/
inductive Point.Connects (codec : Codec Byte Response)
    (endpoint : SessionEndpoint) (t : Transport Byte) :
    Point Byte Response → Answer Byte → Step Byte Response → Prop where
  | fails {point : Point Byte Response} {answer : Answer Byte}
      {next : Step Byte Response} (error : ErrorCode)
      (ends : next.2.Ends (some error)) (like : t.Like next.1) :
      Connects codec endpoint t point answer next
  | opens {domain service : String} {sni : Option ErrorCode} {opens : Bool}
      (named : sni = none ∨ ∃ target, endpoint = .plain target) :
      Connects codec endpoint t (.resolving domain service)
        (.resolved none sni opens)
        (t.setOpen t.stream opens, .await .connecting)
  | connects {target : Endpoint false} {leavesOpen : Bool}
      (plain : endpoint = .plain target) :
      Connects codec endpoint t .connecting (.connected none none leavesOpen)
        (t.cancelTimer, .complete none)
  | shakes {target : Endpoint true} {leavesOpen : Bool}
      (secure : endpoint = .secure target) :
      Connects codec endpoint t .connecting (.connected none none leavesOpen)
        (t, .await .handshaking)
  | asks {tunnel : TunnelEndpoint} {leavesOpen : Bool}
      (tunnels : endpoint = .tunnel tunnel) :
      Connects codec endpoint t .connecting (.connected none none leavesOpen)
        (t, .await (.proxying (.writing (connectRequest tunnel))))
  | escapes {error : ErrorCode} {leavesOpen : Bool}
      (throws : ∀ target, endpoint ≠ .secure target) :
      Connects codec endpoint t .connecting
        (.connected none (some error) leavesOpen) (t, .escape)
  | proxies {tunnel : TunnelEndpoint} {io : IoPoint Byte Response}
      {answer : Answer Byte} {rest : List Byte}
      {result : IoResult Byte Response} (tunnels : endpoint = .tunnel tunnel)
      (resumed : io.Resumed codec t.buffer answer rest result) :
      Connects codec endpoint t (.proxying io) answer
        (tunnelProxied codec result { t with buffer := rest })
  | shaken {closes : Bool} :
      Connects codec endpoint t .handshaking (.ended none closes)
        (t.cancelTimer, .complete none)

namespace Point.Connects

variable {codec : Codec Byte Response} {endpoint : SessionEndpoint}
  {t : Transport Byte} {ec sni noDelay : Option ErrorCode}

theorem basicConnected {point : Point Byte Response} {answer : Answer Byte}
    (error : ErrorCode) :
    point.Connects codec endpoint t answer
      (basicConnected (some error) t) :=
  .fails error (.inl rfl) t.like_cancelTimer

theorem sslConnect {target : SecureEndpoint} {domain service : String}
    {opens : Bool} :
    Point.Connects codec (.secure target) t (.resolving domain service)
      (.resolved none sni opens) (sslConnect sni opens t) := by
  cases sni with
  | some error => exact .basicConnected error
  | none => exact .opens (.inl rfl)

theorem tunnelResolved {tunnel : TunnelEndpoint} {domain service : String}
    {opens : Bool} :
    Point.Connects codec (.tunnel tunnel) t (.resolving domain service)
      (.resolved ec sni opens) (tunnelResolved ec sni opens t) := by
  cases ec with
  | some error => exact .fails error (.inr rfl) (.refl t)
  | none =>
      cases sni with
      | some error => exact .fails error (.inl rfl) (.refl t)
      | none => exact .opens (.inl rfl)

theorem tcpConnected {target : PlainEndpoint} {leavesOpen : Bool} :
    Point.Connects codec (.plain target) t .connecting
      (.connected ec noDelay leavesOpen) (tcpConnected ec noDelay t) := by
  cases ec with
  | some error => exact .basicConnected error
  | none =>
      cases noDelay with
      | some error => exact .escapes nofun
      | none => exact .connects rfl

theorem sslConnected {target : SecureEndpoint} {leavesOpen : Bool} :
    Point.Connects codec (.secure target) t .connecting
      (.connected ec noDelay leavesOpen) (sslConnected ec noDelay t) := by
  cases ec with
  | some error => exact .basicConnected error
  | none =>
      cases noDelay with
      | some error => exact .basicConnected error
      | none => exact .shakes rfl

theorem tunnelConnected {tunnel : TunnelEndpoint} {leavesOpen : Bool} :
    Point.Connects codec (.tunnel tunnel) t .connecting
      (.connected ec noDelay leavesOpen)
      (tunnelConnected tunnel ec noDelay t) := by
  cases ec with
  | some error => exact .basicConnected error
  | none =>
      cases noDelay with
      | some error => exact .escapes nofun
      | none => exact .asks rfl

theorem tunnelShaken {closes : Bool} :
    Point.Connects codec endpoint t .handshaking (.ended ec closes)
      (tunnelShaken ec t) := by
  cases ec with
  | some error => exact .basicConnected error
  | none => exact .shaken

end Point.Connects

theorem Point.connects {codec : Codec Byte Response}
    {endpoint : SessionEndpoint} {stream : Nat} {t : Transport Byte}
    {point : Point Byte Response} {answer : Answer Byte}
    {next : Step Byte Response}
    (resumed : point.resume codec endpoint stream t answer = some next)
    (connecting : point.kind = .connect) :
    point.Connects codec endpoint (t.afterAnswer stream answer) answer next := by
  unfold Point.resume at resumed
  dsimp only at resumed
  split at resumed
  case h_1 domain service ec sni opens =>
    cases endpoint with
    | plain target =>
        cases ec <;> obtain rfl := Option.some.inj resumed
        · exact .opens (.inr ⟨target, rfl⟩)
        · exact .basicConnected _
    | secure target =>
        cases ec <;> obtain rfl := Option.some.inj resumed
        · exact .sslConnect
        · exact .basicConnected _
    | tunnel tunnel =>
        obtain rfl := Option.some.inj resumed
        exact .tunnelResolved
  case h_2 ec noDelay leavesOpen =>
    cases endpoint <;> obtain rfl := Option.some.inj resumed
    · exact .tcpConnected
    · exact .sslConnected
    · exact .tunnelConnected
  case h_3 ec closes =>
    cases endpoint with
    | plain target => cases resumed
    | secure target =>
        obtain rfl := Option.some.inj resumed
        exact .tunnelShaken
    | tunnel tunnel =>
        obtain rfl := Option.some.inj resumed
        exact .tunnelShaken
  case h_4 io =>
    cases endpoint with
    | plain target => cases resumed
    | secure target => cases resumed
    | tunnel tunnel =>
        split at resumed
        case h_1 rest result _ answered =>
          obtain rfl := Option.some.inj resumed
          exact .proxies rfl (IoPoint.resume_resumed answered)
        case h_2 => cases resumed
  case h_5 io => cases connecting
  case h_6 closes => cases connecting
  case h_7 closes => cases connecting
  case h_8 ec closes => cases connecting
  case h_9 => cases resumed

/-- How a close is answered: `u` is the transport it ends with. -/
inductive Point.Closing (stream : Nat) (t : Transport Byte) :
    Point Byte Response → Option ErrorCode → Transport Byte → Prop where
  | posted : Closing stream t .closePosted none t
  | tcp : Closing stream t .tcpClosing none (t.setOpen t.stream false)
  | shut (ec : Option ErrorCode) :
      Closing stream t .shuttingDown (shutdownError ec)
        (t.setOpen stream false)

theorem Point.closes {codec : Codec Byte Response}
    {endpoint : SessionEndpoint} {stream : Nat} {t : Transport Byte}
    {point : Point Byte Response} {answer : Answer Byte}
    {next : Step Byte Response}
    (resumed : point.resume codec endpoint stream t answer = some next)
    (closing : point.kind = .close) :
    ∃ ec u, point.Closing stream (t.afterAnswer stream answer) ec u ∧
      next = closed endpoint ec u := by
  unfold Point.resume at resumed
  dsimp only at resumed
  split at resumed
  case h_1 => cases closing
  case h_2 => cases closing
  case h_3 => cases closing
  case h_4 => cases closing
  case h_5 => cases closing
  case h_6 closes => exact ⟨none, _, .posted, (Option.some.inj resumed).symm⟩
  case h_7 closes => exact ⟨none, _, .tcp, (Option.some.inj resumed).symm⟩
  case h_8 ec closes => exact ⟨_, _, .shut ec, (Option.some.inj resumed).symm⟩
  case h_9 => cases resumed

namespace Step.Keeps

variable {codec : Codec Byte Response} {t : Transport Byte}

theorem tunnelProxied (result : IoResult Byte Response) (t : Transport Byte) :
    (tunnelProxied codec result t).Keeps .connect t := by
  unfold Fetchpp.tunnelProxied
  split
  · exact ⟨rfl, rfl⟩
  · exact ⟨rfl, trivial⟩
  · exact ⟨rfl, rfl⟩
  · split
    · exact ⟨rfl, trivial⟩
    · exact ⟨rfl, rfl⟩

theorem processOneResume (result : IoResult Byte Response)
    (t : Transport Byte) :
    (processOneResume codec result t).Keeps .exchange t := by
  unfold Fetchpp.processOneResume
  split
  · exact ⟨rfl, rfl⟩
  · exact ⟨rfl, trivial⟩
  · split
    · exact ⟨rfl, trivial⟩
    · exact ⟨rfl, rfl⟩
  · split
    · exact ⟨rfl, trivial⟩
    · exact ⟨rfl, trivial⟩

theorem processOne (request : Request) (t : Transport Byte) :
    (processOne request t : Step Byte Response).Keeps .exchange t := by
  unfold Fetchpp.processOne
  split
  · exact ⟨rfl, trivial⟩
  · exact ⟨rfl, rfl⟩

theorem tunnelConnect (endpoint : TunnelEndpoint) (t : Transport Byte) :
    (tunnelConnect endpoint t : Step Byte Response).Keeps .connect t :=
  ⟨rfl, rfl⟩

theorem trans {kind : Kind} {u : Transport Byte} {next : Step Byte Response}
    (keeps : next.Keeps kind u) (same : u.stream = t.stream) :
    next.Keeps kind t :=
  ⟨keeps.stream.trans same, keeps.stays⟩

end Step.Keeps

theorem Point.Connects.keeps {codec : Codec Byte Response}
    {endpoint : SessionEndpoint} {t : Transport Byte}
    {point : Point Byte Response} {answer : Answer Byte}
    {next : Step Byte Response}
    (connects : point.Connects codec endpoint t answer next) :
    next.Keeps .connect t := by
  cases connects with
  | fails error ends like =>
      refine ⟨like.stream, ?_⟩
      rcases ends with ends | ends
      · rw [ends]
        trivial
      · rw [ends]
        trivial
  | opens => exact ⟨t.setOpen_stream _ _, rfl⟩
  | connects => exact ⟨rfl, trivial⟩
  | shakes => exact ⟨rfl, rfl⟩
  | asks => exact ⟨rfl, rfl⟩
  | escapes => exact ⟨rfl, trivial⟩
  | proxies => exact (Step.Keeps.tunnelProxied _ _).trans rfl
  | shaken => exact ⟨rfl, trivial⟩

/-- The end of a close. -/
structure Step.Closes (endpoint : SessionEndpoint) (t : Transport Byte)
    (next : Step Byte Response) : Prop where
  completes : ∃ ec, next.2 = .complete ec
  basic : endpoint.isTunnel = false → next.1.stream = t.stream
  tunnel : endpoint.isTunnel = true → next.1.isOpen = false

theorem closed_closes (endpoint : SessionEndpoint) (ec : Option ErrorCode)
    {t u : Transport Byte} (same : u.stream = t.stream) :
    (closed endpoint ec u : Step Byte Response).Closes endpoint t := by
  unfold closed
  cases tunnel : endpoint.isTunnel with
  | true =>
      exact
        { completes := ⟨ec, by simp⟩
          basic := fun other => by simp [tunnel] at other
          tunnel := fun _ => by simp [Transport.tunnelReset,
            Transport.newStream] }
  | false =>
      exact
        { completes := ⟨ec, by simp⟩
          basic := fun _ => by simpa [Transport.cancelTimer] using same
          tunnel := fun other => by simp [tunnel] at other }

theorem closed_completes (endpoint : SessionEndpoint) (ec : Option ErrorCode)
    (t : Transport Byte) :
    (closed endpoint ec t : Step Byte Response).2 = .complete ec := by
  unfold closed
  split <;> rfl

theorem closed_buffer {endpoint : SessionEndpoint} {ec : Option ErrorCode}
    {t : Transport Byte} (basic : endpoint.isTunnel = false) :
    (closed endpoint ec t : Step Byte Response).1.buffer = t.buffer := by
  simp only [closed, basic]
  rfl

theorem closed_renews {endpoint : SessionEndpoint} {ec : Option ErrorCode}
    {t : Transport Byte} (tunnel : endpoint.isTunnel = true) :
    (closed endpoint ec t : Step Byte Response).1.stream = t.stream + 1 := by
  simp only [closed, tunnel]
  rfl

theorem Point.Closing.buffer {stream : Nat} {t u : Transport Byte}
    {point : Point Byte Response} {ec : Option ErrorCode}
    (closing : point.Closing stream t ec u) : u.buffer = t.buffer := by
  cases closing with
  | posted => rfl
  | tcp => exact t.setOpen_buffer _ _
  | shut => exact t.setOpen_buffer _ _

theorem Point.Closing.stream_eq {stream : Nat} {t u : Transport Byte}
    {point : Point Byte Response} {ec : Option ErrorCode}
    (closing : point.Closing stream t ec u) : u.stream = t.stream := by
  cases closing with
  | posted => rfl
  | tcp => exact t.setOpen_stream _ _
  | shut => exact t.setOpen_stream _ _

/-- A resumed operation stays where it is, or it is a close that ends. -/
theorem Point.resume_cases {codec : Codec Byte Response}
    {endpoint : SessionEndpoint} {stream : Nat} {t : Transport Byte}
    {point : Point Byte Response} {answer : Answer Byte}
    {next : Step Byte Response}
    (resumed : point.resume codec endpoint stream t answer = some next) :
    (point.kind ≠ .close ∧ next.Keeps point.kind t) ∨
      (point.kind = .close ∧ next.Closes endpoint t) := by
  have after := t.afterAnswer_stream stream answer
  cases kind : point.kind with
  | connect =>
      exact .inl ⟨nofun, (Point.connects resumed kind).keeps.trans after⟩
  | exchange =>
      obtain ⟨io, rfl⟩ := Point.exchanging_of_kind kind
      obtain ⟨result, u, _, _, same, _, rfl⟩ :=
        Point.resume_exchanging resumed
      exact .inl ⟨nofun, (Step.Keeps.processOneResume _ _).trans same⟩
  | close =>
      obtain ⟨ec, u, closing, rfl⟩ := Point.closes resumed kind
      exact .inr ⟨rfl, closed_closes _ _ (closing.stream_eq.trans after)⟩

theorem connect_keeps (endpoint : SessionEndpoint) (t : Transport Byte) :
    (connect endpoint t : Step Byte Response).Keeps .connect t ∨
      (endpoint.isTunnel = false ∧ t.running = false ∧
        (connect endpoint t : Step Byte Response).2.StaysIn .connect) := by
  have basic : ∀ {isSecure : Bool} (endpoint : Endpoint isSecure),
      (basicConnect endpoint t : Step Byte Response).Keeps .connect t ∨
        t.running = false := by
    intro isSecure endpoint
    cases running : t.running with
    | true =>
        left
        simp only [basicConnect, running]
        exact ⟨rfl, rfl⟩
    | false => exact .inr rfl
  cases endpoint with
  | plain endpoint =>
      rcases basic endpoint with keeps | stopped
      · exact .inl keeps
      · exact .inr ⟨rfl, stopped, rfl⟩
  | secure endpoint =>
      rcases basic endpoint with keeps | stopped
      · exact .inl keeps
      · exact .inr ⟨rfl, stopped, rfl⟩
  | tunnel endpoint => exact .inl (.tunnelConnect endpoint t)

theorem connect_resolves (endpoint : SessionEndpoint) (t : Transport Byte) :
    ∃ domain service, (connect endpoint t : Step Byte Response).2 =
      .await (.resolving domain service) := by
  cases endpoint with
  | plain target => exact ⟨_, _, rfl⟩
  | secure target => exact ⟨_, _, rfl⟩
  | tunnel tunnel => exact ⟨_, _, rfl⟩

theorem processOne_isOpen (request : Request) (t : Transport Byte) :
    (processOne request t : Step Byte Response).1.isOpen = t.isOpen := by
  unfold processOne
  split <;> rfl

/-- A close waits, for its own post if the socket is not open, or it ends at
once. -/
theorem close_cases (endpoint : SessionEndpoint) (graceful : GracefulShutdown)
    (t : Transport Byte) :
    (t.isOpen = false ∧ close endpoint graceful t =
      (((t.setRunning false).setupTimer, .await .closePosted) :
        Step Byte Response)) ∨
    (t.isOpen = true ∧ ∃ point : Point Byte Response,
      point.kind = .close ∧ point ≠ .closePosted ∧
      (endpoint.isTunnel = true → point = .shuttingDown) ∧
      close endpoint graceful t =
        ((t.setRunning false).setupTimer, .await point)) ∨
    (t.isOpen = true ∧ graceful = .no ∧
      (close endpoint graceful t : Step Byte Response) =
        closed endpoint none (t.setRunning false).setupTimer) := by
  cases isOpen : t.isOpen with
  | false =>
      refine .inl ⟨rfl, ?_⟩
      simp [close, Transport.setRunning, Transport.setupTimer, isOpen]
  | true =>
      refine .inr ?_
      cases graceful with
      | yes =>
          refine .inl ⟨rfl, ?_⟩
          cases endpoint with
          | plain target =>
              refine ⟨.tcpClosing, rfl, nofun, nofun, ?_⟩
              simp [close, Transport.setRunning, Transport.setupTimer, isOpen]
          | secure target =>
              refine ⟨.shuttingDown, rfl, nofun, fun _ => rfl, ?_⟩
              simp [close, Transport.setRunning, Transport.setupTimer, isOpen]
          | tunnel tunnel =>
              refine ⟨.shuttingDown, rfl, nofun, fun _ => rfl, ?_⟩
              simp [close, Transport.setRunning, Transport.setupTimer, isOpen]
      | no =>
          refine .inr ⟨rfl, rfl, ?_⟩
          simp [close, Transport.setRunning, Transport.setupTimer, isOpen]

/-- A close that is not graceful ends at once on an open socket; every other
close waits. -/
theorem close_waits (endpoint : SessionEndpoint) (graceful : GracefulShutdown)
    (t : Transport Byte) :
    (∃ point : Point Byte Response, point.kind = .close ∧
      (point = .closePosted → t.isOpen = false) ∧
      close endpoint graceful t =
        ((t.setRunning false).setupTimer, .await point)) ∨
    (graceful = .no ∧ t.isOpen = true ∧
      (close endpoint graceful t : Step Byte Response) =
        closed endpoint none (t.setRunning false).setupTimer) := by
  rcases @close_cases Byte Response endpoint graceful t with
    ⟨isOpen, waits⟩ | ⟨_, point, kind, notPosted, _, waits⟩ |
    ⟨isOpen, forced, ends⟩
  · exact .inl ⟨.closePosted, rfl, fun _ => isOpen, waits⟩
  · exact .inl ⟨point, kind, fun posted => absurd posted notPosted, waits⟩
  · exact .inr ⟨forced, isOpen, ends⟩

theorem shutdownError_not_aborted (ec : Option ErrorCode) :
    shutdownError ec ≠ some .operationAborted := by
  unfold shutdownError
  split
  · simp
  · simp
  · simp
  · simp
  · assumption

theorem Point.Closing.not_aborted {stream : Nat} {t u : Transport Byte}
    {point : Point Byte Response} {ec : Option ErrorCode}
    (closing : point.Closing stream t ec u) :
    ec ≠ some .operationAborted := by
  cases closing with
  | posted => simp
  | tcp => simp
  | shut ec => exact shutdownError_not_aborted ec

theorem closed_isOpen (endpoint : SessionEndpoint) (ec : Option ErrorCode)
    {t : Transport Byte} (notOpen : t.isOpen = false) :
    (closed endpoint ec t : Step Byte Response).1.isOpen = false := by
  unfold closed
  split
  · rfl
  · exact notOpen

theorem Point.Closing.closes {stream : Nat} {t u : Transport Byte}
    {point : Point Byte Response} {ec : Option ErrorCode}
    (closing : point.Closing stream t ec u)
    (posted : point = .closePosted → t.isOpen = false)
    (shutting : point = .shuttingDown → stream = t.stream ∨ t.isOpen = false) :
    u.isOpen = false := by
  cases closing with
  | posted => exact posted rfl
  | tcp => simp [Transport.setOpen]
  | shut =>
      rcases shutting rfl with same | notOpen
      · simp [Transport.setOpen, same]
      · unfold Transport.setOpen
        split
        · rfl
        · exact notOpen

theorem Point.Closing.isOpen_of {stream : Nat} {t u : Transport Byte}
    {point : Point Byte Response} {ec : Option ErrorCode}
    (closing : point.Closing stream t ec u) (isOpen : u.isOpen = true) :
    t.isOpen = true := by
  have shut : ∀ other : Nat, (t.setOpen other false).isOpen = true →
      t.isOpen = true := by
    intro other isOpen
    unfold Transport.setOpen at isOpen
    split at isOpen
    · cases isOpen
    · exact isOpen
  cases closing with
  | posted => exact isOpen
  | tcp => exact shut t.stream isOpen
  | shut => exact shut stream isOpen

theorem processOneResume_isOpen (codec : Codec Byte Response)
    (result : IoResult Byte Response) (t : Transport Byte) :
    (processOneResume codec result t).1.isOpen = t.isOpen := by
  unfold processOneResume
  split
  · rfl
  · rfl
  · split <;> rfl
  · split <;> rfl

theorem tunnelProxied_cases (codec : Codec Byte Response)
    (result : IoResult Byte Response) (t : Transport Byte) :
    ((∃ error, (tunnelProxied codec result t).2.Ends (some error)) ∨
      ∃ later, (tunnelProxied codec result t).2 = .await later) ∧
    (tunnelProxied codec result t).1.isOpen = t.isOpen := by
  cases result with
  | pending io => exact ⟨.inr ⟨_, rfl⟩, rfl⟩
  | failed error => exact ⟨.inl ⟨error, .inl rfl⟩, rfl⟩
  | wrote sent => exact ⟨.inr ⟨_, rfl⟩, rfl⟩
  | read response =>
      by_cases accepted : codec.status response = 200
      · have shakes : tunnelProxied codec (.read response) t =
            (t, .await .handshaking) := by
          simp [tunnelProxied, accepted]
        rw [shakes]
        exact ⟨.inr ⟨_, rfl⟩, rfl⟩
      · have refused : tunnelProxied codec (.read response) t =
            (t, .completeFirst (some .connectionRefused)) := by
          simp [tunnelProxied, accepted]
        rw [refused]
        exact ⟨.inl ⟨_, .inr rfl⟩, rfl⟩

/-- A connect succeeds with its handshake, or with a connect that needs
none. -/
theorem Point.Connects.outcome {codec : Codec Byte Response}
    {endpoint : SessionEndpoint} {t : Transport Byte}
    {point : Point Byte Response} {answer : Answer Byte}
    {next : Step Byte Response}
    (connects : point.Connects codec endpoint t answer next) :
    (∃ later, next.2 = .await later) ∨ next.2 = .escape ∨
    (∃ error, next.2.Ends (some error)) ∨
    (next.2.Ends none ∧ next.1.isOpen = t.isOpen ∧
      (endpoint.isTunnel = false ∨
        (point = .handshaking ∧ ∃ closes, answer = .ended none closes))) := by
  cases connects with
  | fails error ends => exact .inr (.inr (.inl ⟨error, ends⟩))
  | opens => exact .inl ⟨_, rfl⟩
  | connects plain =>
      subst plain
      exact .inr (.inr (.inr ⟨.inl rfl, rfl, .inl rfl⟩))
  | shakes => exact .inl ⟨_, rfl⟩
  | asks => exact .inl ⟨_, rfl⟩
  | escapes => exact .inr (.inl rfl)
  | proxies =>
      rcases (tunnelProxied_cases _ _ _).1 with fails | awaits
      · exact .inr (.inr (.inl fails))
      · exact .inl awaits
  | shaken => exact .inr (.inr (.inr ⟨.inl rfl, rfl, .inr ⟨rfl, _, rfl⟩⟩))

theorem Point.Connects.running {codec : Codec Byte Response}
    {endpoint : SessionEndpoint} {t : Transport Byte}
    {point : Point Byte Response} {answer : Answer Byte}
    {next : Step Byte Response}
    (connects : point.Connects codec endpoint t answer next) :
    next.1.running = t.running := by
  cases connects with
  | fails error ends like => exact like.running
  | opens => exact t.setOpen_running _ _
  | connects => rfl
  | shakes => rfl
  | asks => rfl
  | escapes => rfl
  | shaken => rfl
  | @proxies tunnel io answer rest result tunnels resumed =>
      unfold tunnelProxied
      split
      · rfl
      · rfl
      · rfl
      · split <;> rfl

theorem Point.Closing.running {stream : Nat} {t u : Transport Byte}
    {point : Point Byte Response} {ec : Option ErrorCode}
    (closing : point.Closing stream t ec u) : u.running = t.running := by
  cases closing with
  | posted => rfl
  | tcp => exact t.setOpen_running _ _
  | shut => exact t.setOpen_running _ _

theorem processOneResume_running (codec : Codec Byte Response)
    (result : IoResult Byte Response) (t : Transport Byte) :
    (processOneResume codec result t).1.running = t.running := by
  unfold processOneResume
  split
  · rfl
  · rfl
  · split <;> rfl
  · split <;> rfl

theorem closed_running (endpoint : SessionEndpoint) (ec : Option ErrorCode)
    (t : Transport Byte) :
    (closed endpoint ec t : Step Byte Response).1.running = t.running := by
  unfold closed
  split <;> rfl

theorem close_running (endpoint : SessionEndpoint)
    (graceful : GracefulShutdown) (t : Transport Byte) :
    (close endpoint graceful t : Step Byte Response).1.running = false := by
  rcases @close_waits Byte Response endpoint graceful t with
    ⟨point, _, _, waits⟩ | ⟨_, _, ends⟩
  · rw [waits]
    rfl
  · rw [ends]
    exact closed_running _ _ _

/-- Only the start of an operation sets the running flag. -/
theorem Point.resume_running {codec : Codec Byte Response}
    {endpoint : SessionEndpoint} {stream : Nat} {t : Transport Byte}
    {point : Point Byte Response} {answer : Answer Byte}
    {next : Step Byte Response}
    (resumed : point.resume codec endpoint stream t answer = some next) :
    next.1.running = t.running := by
  have after := t.afterAnswer_running stream answer
  cases kind : point.kind with
  | connect => exact (Point.connects resumed kind).running.trans after
  | exchange =>
      obtain ⟨io, rfl⟩ := Point.exchanging_of_kind kind
      obtain ⟨result, u, _, same, _, _, rfl⟩ := Point.resume_exchanging resumed
      exact (processOneResume_running codec result u).trans same
  | close =>
      obtain ⟨ec, u, closing, rfl⟩ := Point.closes resumed kind
      exact (closed_running _ _ _).trans (closing.running.trans after)

theorem IoResult.ofExcept_ne_pending (result : Except ErrorCode Response)
    (io : IoPoint Byte Response) : IoResult.ofExcept result ≠ .pending io := by
  cases result <;> simp [IoResult.ofExcept]

theorem IoPoint.Resumed.not_writing {codec : Codec Byte Response}
    {buffer rest : List Byte} {io : IoPoint Byte Response}
    {answer : Answer Byte} {result : IoResult Byte Response}
    (resumed : io.Resumed codec buffer answer rest result) (request : Request) :
    result ≠ .pending (.writing request) := by
  cases resumed with
  | wrote => simp
  | writeFailed => simp
  | more fed => simp
  | read fed => exact IoResult.ofExcept_ne_pending _ _
  | finished => exact IoResult.ofExcept_ne_pending _ _
  | readFailed notEof => simp
  | posted => exact IoResult.ofExcept_ne_pending _ _

theorem startRead_ne_writing {codec : Codec Byte Response} (skip : Bool)
    (buffer : List Byte) (request : Request) :
    (startRead codec skip buffer).2 ≠ .writing request := by
  rcases startRead_cases codec skip buffer with
    ⟨rest, parsed, _, starts⟩ | ⟨rest, result, _, starts⟩
  · simp [starts]
  · simp [starts]

/-- An exchange writes when it starts, and never again. -/
theorem Point.resume_ne_writing {codec : Codec Byte Response}
    {endpoint : SessionEndpoint} {stream : Nat} {t : Transport Byte}
    {point : Point Byte Response} {answer : Answer Byte}
    {next : Step Byte Response}
    (resumed : point.resume codec endpoint stream t answer = some next)
    (request : Request) :
    next.2 ≠ .await (.exchanging (.writing request)) := by
  intro writes
  cases kind : point.kind with
  | connect =>
      have stays := (Point.connects resumed kind).keeps.stays
      rw [writes] at stays
      cases stays
  | close =>
      obtain ⟨ec, u, _, rfl⟩ := Point.closes resumed kind
      rw [closed_completes] at writes
      cases writes
  | exchange =>
      obtain ⟨io, rfl⟩ := Point.exchanging_of_kind kind
      obtain ⟨result, u, answered, _, _, _, rfl⟩ :=
        Point.resume_exchanging resumed
      cases result with
      | failed error => simp [processOneResume] at writes
      | pending later =>
          have notWriting := answered.not_writing request
          simp only [processOneResume, Yield.await.injEq,
            Point.exchanging.injEq] at writes
          exact notWriting (congrArg IoResult.pending writes)
      | wrote sent =>
          simp only [processOneResume] at writes
          split at writes
          · cases writes
          · simp only [Yield.await.injEq, Point.exchanging.injEq] at writes
            exact startRead_ne_writing _ _ request writes
      | read response =>
          simp only [processOneResume] at writes
          split at writes <;> cases writes

end Fetchpp

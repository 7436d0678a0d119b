import Fetchpp.Connection.Accounting

/-!
# The timer of a connect that completes

A connect arms the timer of its transport.  Its handler may start the next
operation, which arms the timer for itself, so the connect has to disarm it
before it calls the handler and to leave it alone afterwards.  The connect of a
tunnel has three exits that do not.
-/

namespace Fetchpp

open Http

variable {Byte Response : Type} {codec : Codec Byte Response}
  {endpoint : SessionEndpoint}

/-- If the operation completes, it has disarmed the timer and leaves it alone
from then on. -/
def Step.Disarms (next : Step Byte Response) : Prop :=
  ∀ ec, next.2.Ends ec → next.1.timerArmed = false ∧ next.2 = .complete ec

namespace Step.Disarms

theorem await (t : Transport Byte) (point : Point Byte Response) :
    Step.Disarms (t, .await point) := by
  rintro ec (ends | ends) <;> cases ends

theorem escape (t : Transport Byte) :
    Step.Disarms ((t, .escape) : Step Byte Response) := by
  rintro ec (ends | ends) <;> cases ends

theorem complete_iff {t : Transport Byte} {ec : Option ErrorCode} :
    Step.Disarms ((t, .complete ec) : Step Byte Response) ↔
      t.timerArmed = false := by
  constructor
  · exact fun disarms => (disarms ec (.inl rfl)).1
  · rintro disarmed other (ends | ends)
    · exact ⟨disarmed, ends⟩
    · cases ends

theorem not_completeFirst {t : Transport Byte} {ec : Option ErrorCode} :
    ¬ Step.Disarms ((t, .completeFirst ec) : Step Byte Response) := by
  intro disarms
  cases (disarms ec (.inr rfl)).2

theorem cancelled (t : Transport Byte) (ec : Option ErrorCode) :
    Step.Disarms ((t.cancelTimer, .complete ec) : Step Byte Response) :=
  complete_iff.mpr rfl

end Step.Disarms

/-- The exits of a connect that leave the timer armed, or cancel it after the
handler was called, are not taken. -/
def Point.disarms (codec : Codec Byte Response) (endpoint : SessionEndpoint)
    (t : Transport Byte) (point : Point Byte Response)
    (answer : Answer Byte) : Bool :=
  match endpoint with
  | .tunnel _ =>
      match point, answer with
      | .resolving _ _, .resolved (some _) _ _ => false
      | .resolving _ _, .resolved none (some _) _ => !t.timerArmed
      | .proxying io, answer =>
          match io.resume codec t.buffer answer with
          | some (_, .read response) => codec.status response == 200
          | _ => true
      | _, _ => true
  | _ => true

theorem tcpConnected_disarms (ec noDelay : Option ErrorCode)
    (t : Transport Byte) :
    Step.Disarms (tcpConnected ec noDelay t : Step Byte Response) := by
  cases ec with
  | some error => exact .cancelled t _
  | none =>
      cases noDelay with
      | some error => exact .escape t
      | none => exact .cancelled t _

theorem sslConnect_disarms (sni : Option ErrorCode) (opens : Bool)
    (t : Transport Byte) :
    Step.Disarms (sslConnect sni opens t : Step Byte Response) := by
  cases sni with
  | some error => exact .cancelled t _
  | none => exact .await _ _

theorem sslConnected_disarms (ec noDelay : Option ErrorCode)
    (t : Transport Byte) :
    Step.Disarms (sslConnected ec noDelay t : Step Byte Response) := by
  cases ec with
  | some error => exact .cancelled t _
  | none =>
      cases noDelay with
      | some error => exact .cancelled t _
      | none => exact .await _ _

theorem tunnelResolved_disarms {ec sni : Option ErrorCode} {opens : Bool}
    {t : Transport Byte} :
    Step.Disarms (tunnelResolved ec sni opens t : Step Byte Response) ↔
      ec = none ∧ (sni = none ∨ t.timerArmed = false) := by
  cases ec with
  | some error =>
      exact iff_of_false Step.Disarms.not_completeFirst nofun
  | none =>
      cases sni with
      | some error =>
          simp only [tunnelResolved, Step.Disarms.complete_iff]
          simp
      | none =>
          exact iff_of_true (.await _ _) ⟨rfl, .inl rfl⟩

theorem tunnelConnected_disarms (tunnel : TunnelEndpoint)
    (ec noDelay : Option ErrorCode) (t : Transport Byte) :
    Step.Disarms (tunnelConnected tunnel ec noDelay t :
      Step Byte Response) := by
  cases ec with
  | some error => exact .cancelled t _
  | none =>
      cases noDelay with
      | some error => exact .escape t
      | none => exact .await _ _

theorem tunnelProxied_disarms {result : IoResult Byte Response}
    {t : Transport Byte} :
    (tunnelProxied codec result t).Disarms ↔
      ∀ response, result = .read response → codec.status response = 200 := by
  cases result with
  | pending io => exact iff_of_true (.await _ _) nofun
  | failed error => exact iff_of_true (.cancelled _ _) nofun
  | wrote request => exact iff_of_true (.await _ _) nofun
  | read response =>
      by_cases accepted : codec.status response = 200
      · have shakes : tunnelProxied codec (.read response) t =
            (t, .await .handshaking) := by
          simp [tunnelProxied, accepted]
        rw [shakes]
        refine iff_of_true (.await _ _) ?_
        intro other same
        rw [← IoResult.read.inj same]
        exact accepted
      · have refused : tunnelProxied codec (.read response) t =
            (t, .completeFirst (some .connectionRefused)) := by
          simp [tunnelProxied, accepted]
        rw [refused]
        exact iff_of_false Step.Disarms.not_completeFirst
          (fun all => accepted (all response rfl))

private theorem resolved_disarms_iff {stream : Nat} {t : Transport Byte}
    {domain service : String} {ec sni : Option ErrorCode} {opens : Bool}
    {next : Step Byte Response}
    (resumed : (Point.resolving domain service).resume codec endpoint stream t
      (.resolved ec sni opens) = some next) :
    next.Disarms ↔ (Point.resolving domain service).disarms codec endpoint t
      (.resolved ec sni opens) = true := by
  cases endpoint with
  | plain target =>
      cases ec with
      | some error =>
          obtain rfl := Option.some.inj resumed
          exact iff_of_true (.cancelled _ _) rfl
      | none =>
          obtain rfl := Option.some.inj resumed
          exact iff_of_true (.await _ _) rfl
  | secure target =>
      cases ec with
      | some error =>
          obtain rfl := Option.some.inj resumed
          exact iff_of_true (.cancelled _ _) rfl
      | none =>
          obtain rfl := Option.some.inj resumed
          exact iff_of_true (sslConnect_disarms _ _ _) rfl
  | tunnel tunnel =>
      obtain rfl := Option.some.inj resumed
      rw [tunnelResolved_disarms]
      cases ec with
      | some error => exact iff_of_false nofun nofun
      | none =>
          cases sni with
          | some error =>
              simp [Point.disarms, Transport.afterAnswer, Answer.closes]
          | none => exact iff_of_true ⟨rfl, .inl rfl⟩ rfl

/-- A connect that is answered disarms the timer exactly if it takes none of
the three exits. -/
theorem Point.disarms_iff {stream : Nat} {t : Transport Byte}
    {point : Point Byte Response} {answer : Answer Byte}
    {next : Step Byte Response}
    (resumed : point.resume codec endpoint stream t answer = some next)
    (connecting : point.kind = .connect) :
    next.Disarms ↔ point.disarms codec endpoint t answer = true := by
  have resolved := resumed
  unfold Point.resume at resumed
  dsimp only at resumed
  split at resumed
  case h_1 domain service ec sni opens => exact resolved_disarms_iff resolved
  case h_2 ec noDelay leavesOpen =>
    cases endpoint with
    | plain target =>
        obtain rfl := Option.some.inj resumed
        exact iff_of_true (tcpConnected_disarms _ _ _) rfl
    | secure target =>
        obtain rfl := Option.some.inj resumed
        exact iff_of_true (sslConnected_disarms _ _ _) rfl
    | tunnel tunnel =>
        obtain rfl := Option.some.inj resumed
        exact iff_of_true (tunnelConnected_disarms _ _ _ _) rfl
  case h_3 ec closes =>
    cases endpoint with
    | plain target => cases resumed
    | secure target =>
        obtain rfl := Option.some.inj resumed
        exact iff_of_true (.cancelled _ _) rfl
    | tunnel tunnel =>
        obtain rfl := Option.some.inj resumed
        exact iff_of_true (.cancelled _ _) rfl
  case h_4 io =>
    cases endpoint with
    | plain target => cases resumed
    | secure target => cases resumed
    | tunnel tunnel =>
        split at resumed
        case h_1 rest result _ answered =>
          obtain rfl := Option.some.inj resumed
          rw [Transport.afterAnswer_buffer] at answered
          rw [tunnelProxied_disarms]
          simp only [Point.disarms, answered]
          cases result with
          | pending io => simp
          | failed error => simp
          | wrote request => simp
          | read response => simp
        case h_2 => cases resumed
  case h_5 io => cases connecting
  case h_6 closes => cases connecting
  case h_7 closes => cases connecting
  case h_8 ec closes => cases connecting
  case h_9 => cases resumed

theorem Point.disarms_of_kind {t : Transport Byte} {point : Point Byte Response}
    {answer : Answer Byte} (notConnect : point.kind ≠ .connect) :
    point.disarms codec endpoint t answer = true := by
  cases point with
  | resolving domain service => exact (notConnect rfl).elim
  | connecting => exact (notConnect rfl).elim
  | proxying io => exact (notConnect rfl).elim
  | handshaking => exact (notConnect rfl).elim
  | exchanging io => cases endpoint <;> rfl
  | closePosted => cases endpoint <;> rfl
  | tcpClosing => cases endpoint <;> rfl
  | shuttingDown => cases endpoint <;> rfl

theorem connect_arms (endpoint : SessionEndpoint) (t : Transport Byte) :
    (connect endpoint t : Step Byte Response).1.timerArmed = true := by
  cases endpoint <;> rfl

namespace Connection

open Session Lib

variable {request : PushId → Request}

namespace Call

/-- A connect that has completed has disarmed the timer, and what its handler
starts finds the timer as it has set it. -/
def Disarmed (codec : Codec Byte Response) (endpoint : SessionEndpoint)
    (request : PushId → Request) (s : State Byte Response) : Prop :=
  ∀ completing handler, s.completing = some completing →
    completing.operation = .connect (.start handler) →
    s.transport.timerArmed = false ∧ ∀ call t,
      Call.step codec endpoint request s (.complete (some call)) = some t →
      t.transport.timerArmed =
        (call.first endpoint request s.transport :
          Step Byte Response).1.timerArmed

/-- The step takes none of the exits that leave the timer armed. -/
def Event.disarms (codec : Codec Byte Response) (endpoint : SessionEndpoint)
    (s : State Byte Response) : Event Byte → Bool
  | .answer index given =>
      match s.flights[index]? with
      | some flight => flight.point.disarms codec endpoint s.transport given
      | none => true
  | _ => true

def Unconnected (s : State Byte Response) : Prop :=
  ∀ completing handler, s.completing = some completing →
    completing.operation ≠ .connect (.start handler)

theorem Unconnected.disarmed {s : State Byte Response}
    (unconnected : Unconnected s) : Disarmed codec endpoint request s :=
  fun completing handler some connects =>
    (unconnected completing handler some connects).elim

theorem unconnected_of_idle {s : State Byte Response}
    (idle : s.completing = none) : Unconnected s := by
  intro completing handler some
  simp [idle] at some

theorem unconnected_of_operation {s t : State Byte Response}
    {operation : Operation} {next : Step Byte Response}
    (entered : s.Entered operation next t) (idle : s.completing = none)
    (notConnect : ∀ handler, operation ≠ .connect (.start handler)) :
    Unconnected t := by
  intro completing handler some connects
  rw [entered.completing, idle, Option.or_none] at some
  rw [State.completion_operation some] at connects
  exact (notConnect handler connects).elim

theorem unconnected_start {s : State Byte Response} (idle : s.completing = none)
    (call : Call) : Unconnected (call.start endpoint request s) := by
  have entered := @start_entered _ _ endpoint request call s
  cases call with
  | connect handler =>
      obtain ⟨domain, service, awaits⟩ :=
        @connect_resolves Byte Response endpoint s.transport
      exact unconnected_of_idle (entered.awaits idle awaits).1
  | exchange handler => exact unconnected_of_operation entered idle nofun
  | close graceful handler => exact unconnected_of_operation entered idle nofun

/-- A connect that calls its handler before it cancels the timer leaves nothing
of what the handler has set. -/
theorem not_disarmed_of_cancels {s : State Byte Response} {handler : Nat}
    {ec : Option ErrorCode} (some : s.completing =
      some ⟨.connect (.start handler), ec, true⟩) :
    ¬ Disarmed codec endpoint request s := by
  intro disarmed
  have stepped : Call.step codec endpoint request s
      (.complete (.some (.connect 0))) = Option.some
        ((Call.start endpoint request { s with completing := none }
          (.connect 0)).handled true) := by
    simp [Call.step, some, startNext]
  have kept := (disarmed _ handler some rfl).2 (.connect 0) _ stepped
  have armed := @connect_arms Byte Response endpoint s.transport
  simp [State.handled, Transport.cancelTimer, first, armed] at kept

theorem disarmed_of_entered {s t : State Byte Response} {handler : Nat}
    {next : Step Byte Response}
    (entered : s.Entered (.connect (.start handler)) next t)
    (idle : s.completing = none)
    (outcome : (∃ later, next.2 = .await later) ∨ next.2 = .escape ∨
      ∃ ec, next.2.Ends ec) :
    Disarmed codec endpoint request t ↔ next.Disarms := by
  have completing := entered.completing
  rw [idle, Option.or_none] at completing
  constructor
  · rintro disarmed ec (completes | completesFirst)
    · have some : t.completing =
          some ⟨.connect (.start handler), ec, false⟩ := by
        rw [completing, State.completion, completes]
      have off := (disarmed _ handler some rfl).1
      rw [entered.transport] at off
      exact ⟨off, completes⟩
    · have some : t.completing =
          some ⟨.connect (.start handler), ec, true⟩ := by
        rw [completing, State.completion, completesFirst]
      exact (not_disarmed_of_cancels some disarmed).elim
  · intro disarms done other some _
    rw [completing] at some
    have ended : ∃ ec, next.2.Ends ec := by
      rcases outcome with ⟨later, awaits⟩ | escapes | ends
      · simp [State.completion, awaits] at some
      · simp [State.completion, escapes] at some
      · exact ends
    obtain ⟨ec, ends⟩ := ended
    obtain ⟨off, completes⟩ := disarms ec ends
    simp only [State.completion, completes, Option.some.injEq] at some
    refine ⟨entered.transport ▸ off, ?_⟩
    intro call u stepped
    rcases step_cases stepped with ⟨_, event, _⟩ | ⟨_, _, event, _⟩ |
      ⟨completing', next', event, some', after⟩
    · cases event
    · cases event
    · cases event
      rw [completing, State.completion, completes] at some'
      obtain rfl := Option.some.inj some'
      rw [after]
      exact congrArg Transport.timerArmed (@start_entered _ _ endpoint request
        call { t with completing := none }).transport

/-- A step leaves the timer to the handlers exactly if it takes none of the
exits. -/
theorem disarmed_step_iff {s t : State Byte Response} (fits : Fitting s)
    {event : Event Byte}
    (stepped : Call.step codec endpoint request s event = some t) :
    Disarmed codec endpoint request t ↔
      event.disarms codec endpoint s = true := by
  rcases step_cases stepped with ⟨call, rfl, idle, rfl⟩ |
    ⟨index, answer, rfl, ⟨answered⟩⟩ | ⟨completing, next, rfl, _, rfl⟩
  · exact iff_of_true (unconnected_start idle call).disarmed rfl
  · obtain ⟨call, operation, kind⟩ := fits _ answered.waited
    have entered := answered.entered
    rw [operation] at entered
    have disarms : Event.disarms codec endpoint s (.answer index answer) =
        answered.flight.point.disarms codec endpoint s.transport answer := by
      simp only [Event.disarms, answered.member]
    rw [disarms]
    cases call with
    | connect handler =>
        rw [← Point.disarms_iff answered.resumed kind]
        refine disarmed_of_entered entered rfl ?_
        rcases (Point.connects answered.resumed kind).outcome with
          awaits | escapes | ⟨error, ends⟩ | ⟨ends, _⟩
        · exact .inl awaits
        · exact .inr (.inl escapes)
        · exact .inr (.inr ⟨_, ends⟩)
        · exact .inr (.inr ⟨_, ends⟩)
    | exchange handler =>
        refine iff_of_true
          (unconnected_of_operation entered rfl nofun).disarmed
          (Point.disarms_of_kind ?_)
        simp [kind, Call.kind]
    | close graceful handler =>
        refine iff_of_true
          (unconnected_of_operation entered rfl nofun).disarmed
          (Point.disarms_of_kind ?_)
        simp [kind, Call.kind]
  · refine iff_of_true (Unconnected.disarmed ?_) rfl
    cases next with
    | none => exact unconnected_of_idle (State.handled_completing _ _)
    | some call =>
        rw [Unconnected, State.handled_completing]
        exact unconnected_start rfl call

/-- In every interleaving the connects that complete have disarmed the timer
and leave it to their handlers, exactly as long as no step takes one of the
three exits of a tunnel. -/
theorem reached_disarmed {transport : Transport Byte}
    {s : State Byte Response × List (Note Byte)}
    (reached : (machine codec endpoint request transport).ReachedBy
      (fun before event => event.disarms codec endpoint before.1 = true) s) :
    Disarmed codec endpoint request s.1 ∧ ∀ event t,
      (machine codec endpoint request transport).step s event = some t →
      (Disarmed codec endpoint request t.1 ↔
        event.disarms codec endpoint s.1 = true) := by
  constructor
  · cases reached with
    | start => exact (unconnected_of_idle rfl).disarmed
    | step earlier disarms stepped =>
        exact (disarmed_step_iff (reached_fits earlier.reached)
          (Machine.logged_step stepped).1).mpr disarms
  · intro event t stepped
    exact disarmed_step_iff (reached_fits reached.reached)
      (Machine.logged_step stepped).1

/-- A tunnel is made. -/
def tunnelledRun : List (Event Char) :=
  [.call (.connect 0), .answer 0 (.resolved none none true),
    .answer 0 (.connected none none true), .answer 0 (.ended none false),
    .answer 0 (.chunk "HTTP/1.1 200 OK\r\n\r\n".toList),
    .answer 0 (.ended none false)]

theorem disarmed_of_tunnelledRun :
    ∃ s, (machine textCodec (.tunnel exampleTunnel)
          (fun _ => exampleRequest) {}).runWhere (fun before event =>
            event.disarms textCodec (.tunnel exampleTunnel) before.1 = true)
          ({}, []) tunnelledRun = some s ∧
      s.1.completing = some ⟨.connect (.start 0), none, false⟩ ∧
      Disarmed textCodec (.tunnel exampleTunnel) (fun _ => exampleRequest)
        s.1 := by
  have executed : ((machine textCodec (.tunnel exampleTunnel)
        (fun _ => exampleRequest) {}).runWhere (fun before event =>
          event.disarms textCodec (.tunnel exampleTunnel) before.1 = true)
        ({}, []) tunnelledRun).map (fun s => s.1.completing) =
      some (some ⟨.connect (.start 0), none, false⟩) := by
    decide +kernel
  obtain ⟨s, run, completing⟩ := Option.map_eq_some_iff.mp executed
  exact ⟨s, run, completing,
    (reached_disarmed (Machine.reachedBy_of_runWhere tunnelledRun run)).1⟩

/-- The proxy refuses: what the handler of the connect starts loses its
timeout. -/
def refusedRun : List (Event Char) :=
  [.call (.connect 0), .answer 0 (.resolved none none true),
    .answer 0 (.connected none none true), .answer 0 (.ended none false),
    .answer 0 (.chunk "HTTP/1.1 407 Refused\r\n\r\n".toList)]

theorem refusedRun_not_disarmed :
    ¬∀ (endpoint : SessionEndpoint) (s : State Char TextResponse ×
        List (Note Char)),
      (machine textCodec endpoint (fun _ => exampleRequest) {}).Reached s →
      Disarmed textCodec endpoint (fun _ => exampleRequest) s.1 := by
  intro disarmed
  have executed : ((machine textCodec (.tunnel exampleTunnel)
        (fun _ => exampleRequest) {}).run ({}, []) refusedRun).map
        (fun s => s.1.completing) =
      some (some ⟨.connect (.start 0), some .connectionRefused, true⟩) := by
    decide +kernel
  obtain ⟨s, run, completing⟩ := Option.map_eq_some_iff.mp executed
  exact not_disarmed_of_cancels completing
    (disarmed (.tunnel exampleTunnel) s (Machine.reached_of_run refusedRun run))

end Call

end Connection

end Fetchpp

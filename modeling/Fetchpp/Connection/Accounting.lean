import Fetchpp.Connection.Suspending

/-!
# Every call is called back once

Each operation that was called waits, has completed and is about to call its
handler, or has called it; only an exception that leaves an operation takes
its handler along.  Setting `TCP_NODELAY` throws on a tcp transport and on a
tunnel, so a connect of these is called back if that does not fail.
-/

namespace Fetchpp

namespace Connection

open Session Http Lib

variable {Byte Response : Type} {codec : Codec Byte Response}
  {endpoint : SessionEndpoint} {request : PushId → Request}

namespace Call

def kind : Call → Kind
  | .connect _ => .connect
  | .exchange _ => .exchange
  | .close _ _ => .close

theorem first_stays (call : Call) (t : Transport Byte) :
    (call.first endpoint request t : Step Byte Response).2.StaysIn
      call.kind := by
  cases call with
  | connect handler =>
      rcases @connect_keeps Byte Response endpoint t with keeps | ⟨_, _, stays⟩
      · exact keeps.stays
      · exact stays
  | exchange handler => exact (Step.Keeps.processOne _ t).stays
  | close graceful handler =>
      rw [first]
      rcases @close_waits Byte Response endpoint graceful t with
        ⟨point, kind, _, waits⟩ | ⟨_, _, ends⟩
      · rw [waits]
        exact kind
      · rw [ends]
        unfold Yield.StaysIn
        rw [closed_completes]
        trivial

theorem first_ne_escape (call : Call) (t : Transport Byte) :
    (call.first endpoint request t : Step Byte Response).2 ≠ .escape := by
  rcases @first_suspends Byte Response endpoint request call t with
    ⟨_, point, awaits⟩ | ⟨_, ec, completes | completesFirst⟩
  · rw [awaits]
    nofun
  · rw [completes]
    nofun
  · rw [completesFirst]
    nofun

/-- Every operation is that of a call and waits at a point of its own. -/
def Fitting (s : State Byte Response) : Prop :=
  ∀ waiting ∈ s.waiting, ∃ call : Call,
    waiting.operation = call.operation ∧ waiting.point.kind = call.kind

theorem fits_of_entered {s t : State Byte Response} {call : Call}
    {next : Step Byte Response} (entered : s.Entered call.operation next t)
    (stays : next.2.StaysIn call.kind) (fits : Fitting s) : Fitting t := by
  intro waiting member
  rcases entered.waits member with earlier | ⟨point, awaits, rfl⟩
  · exact fits waiting earlier
  · rw [awaits] at stays
    exact ⟨call, rfl, stays⟩

theorem resume_stays {stream : Nat} {t : Transport Byte}
    {point : Point Byte Response} {answer : Answer Byte}
    {next : Step Byte Response}
    (resumed : point.resume codec endpoint stream t answer = some next) :
    next.2.StaysIn point.kind := by
  rcases Point.resume_cases resumed with ⟨_, keeps⟩ | ⟨_, closes⟩
  · exact keeps.stays
  · obtain ⟨ec, completes⟩ := closes.completes
    rw [completes]
    trivial

theorem fits_answered {s t : State Byte Response} {index : Nat}
    {answer : Answer Byte} (fits : Fitting s)
    (answered : Answered codec endpoint s index answer t) : Fitting t := by
  have perm := State.waiting_perm answered.member
  obtain ⟨call, operation, kind⟩ :=
    fits answered.flight.toWaiting (perm.symm.subset List.mem_cons_self)
  have entered := answered.entered
  have stays := resume_stays answered.resumed
  rw [operation] at entered
  rw [kind] at stays
  exact fits_of_entered entered stays (fun waiting member => fits waiting
    (perm.symm.subset (List.mem_cons_of_mem _ member)))

theorem fits_step {s t : State Byte Response} {event : Event Byte}
    (fits : Fitting s)
    (stepped : Call.step codec endpoint request s event = some t) :
    Fitting t := by
  rcases step_cases stepped with ⟨call, rfl, _, rfl⟩ |
    ⟨index, answer, rfl, ⟨answered⟩⟩ | ⟨completing, next, rfl, _, rfl⟩
  · exact fits_of_entered (call.start_entered s) (call.first_stays _) fits
  · exact fits_answered fits answered
  · rw [Fitting, State.handled_waiting]
    cases next with
    | none => exact fits
    | some call =>
        exact fits_of_entered
          (call.start_entered { s with completing := none })
          (call.first_stays _) fits

theorem reached_fits {t : Transport Byte}
    {s : State Byte Response × List (Note Byte)}
    (reached : (machine codec endpoint request t).Reached s) :
    Fitting s.1 := by
  induction reached with
  | start => simp [machine, Machine.logged, Fitting, State.waiting]
  | step _ _ stepped fits =>
      exact fits_step fits (Machine.logged_step stepped).1

def Note.called? : Note Byte → Option Operation
  | .called call => some call.operation
  | _ => none

def Note.completed? : Note Byte → Option Operation
  | .completed operation _ => some operation
  | _ => none

def calls (operation : Operation) (log : List (Note Byte)) : Nat :=
  (log.filterMap Note.called?).count operation

def callbacks (operation : Operation) (log : List (Note Byte)) : Nat :=
  (log.filterMap Note.completed?).count operation

/-- Each call of an operation is outstanding or was called back. -/
def Balanced (operation : Operation)
    (s : State Byte Response × List (Note Byte)) : Prop :=
  calls operation s.2 =
    s.1.outstanding.count operation + callbacks operation s.2

/-- An exception leaves the operation when it is answered. -/
def Escapes (codec : Codec Byte Response) (endpoint : SessionEndpoint)
    (operation : Operation) (s : State Byte Response) : Event Byte → Prop
  | .answer index answer => ∃ flight next, s.flights[index]? = some flight ∧
      flight.operation = operation ∧
      flight.point.resume codec endpoint flight.stream s.transport answer =
        some next ∧ next.2 = .escape
  | _ => False

theorem filterMap_goingOn {Kept : Type} {keep : Note Byte → Option Kept}
    (found : ∀ buffer, keep (.found buffer) = none)
    (shakes : ∀ stream, keep (.shakes stream) = none) (t : Transport Byte)
    (point : Point Byte Response) (next : Step Byte Response) :
    (goingOn t point next).filterMap keep = [] := by
  unfold goingOn
  split
  · rfl
  · split <;> simp [found]
  · split <;> simp [found, shakes]
  · rfl

theorem count_outstanding {s t : State Byte Response} {operation : Operation}
    {next : Step Byte Response} (entered : s.Entered operation next t)
    (idle : s.completing = none) (stays : next.2 ≠ .escape)
    (other : Operation) :
    t.outstanding.count other =
      s.outstanding.count other + [operation].count other := by
  rw [entered.outstanding_eq idle]
  split
  case h_1 escapes => exact (stays escapes).elim
  case h_2 => exact List.count_append

namespace Balanced

variable {operation : Operation} {s : State Byte Response × List (Note Byte)}

theorem call (balanced : Balanced operation s) (idle : s.1.completing = none)
    (call : Call) :
    Balanced operation (call.start endpoint request s.1,
      s.2 ++ [.called call]) := by
  have outstanding := count_outstanding
    (@start_entered _ _ endpoint request call s.1) idle
    (call.first_ne_escape _) operation
  unfold Balanced calls callbacks at balanced ⊢
  simp only [List.filterMap_append, List.count_append, outstanding,
    Note.called?, Note.completed?, List.filterMap_cons, List.filterMap_nil]
  simp only [List.count_nil]
  omega

theorem completed (balanced : Balanced operation s) {completing : Completing}
    (some : s.1.completing = some completing) :
    Balanced operation ({ s.1 with completing := none },
      s.2 ++ [.completed completing.operation completing.ec]) := by
  have before : s.1.outstanding.count operation =
      (s.1.waiting.map Waiting.operation).count operation +
        [completing.operation].count operation := by
    simp [State.outstanding, some]
  have after : State.outstanding { s.1 with completing := none } =
      s.1.waiting.map Waiting.operation := by
    simp [State.outstanding, State.waiting]
  unfold Balanced calls callbacks at balanced ⊢
  simp only [List.filterMap_append, List.count_append, after,
    Note.called?, Note.completed?, List.filterMap_cons, List.filterMap_nil]
  simp only [List.count_nil]
  omega

theorem handled (balanced : Balanced operation s) (cancelTimer : Bool) :
    Balanced operation (s.1.handled cancelTimer, s.2) := by
  unfold Balanced at balanced ⊢
  rw [State.handled_outstanding]
  exact balanced

theorem answered (balanced : Balanced operation s) {t : State Byte Response}
    {index : Nat} {answer : Answer Byte}
    (answered : Answered codec endpoint s.1 index answer t) :
    Balanced operation (t, s.2 ++ goingOn s.1.transport answered.flight.point
      answered.next) ↔ ¬ Escapes codec endpoint operation s.1
        (.answer index answer) := by
  have before : s.1.outstanding.count operation =
      (((s.1.flights.eraseIdx index).map Flight.toWaiting).map
          Waiting.operation).count operation +
        [answered.flight.operation].count operation := by
    have perm := (State.waiting_perm answered.member).map Waiting.operation
    have counted := perm.count_eq operation
    simp only [State.outstanding, answered.idle, Option.toList_none,
      List.map_nil, List.append_nil, counted]
    rw [List.map_cons, ← List.singleton_append, List.count_append]
    exact Nat.add_comm _ _
  have rest : State.outstanding { s.1 with
      flights := s.1.flights.eraseIdx index
      completing := none } =
      ((s.1.flights.eraseIdx index).map Flight.toWaiting).map
        Waiting.operation := by
    simp [State.outstanding, State.waiting]
  have outstanding := answered.entered.outstanding_eq rfl
  rw [rest] at outstanding
  have log : ∀ {keep : Note Byte → Option Operation},
      (∀ buffer, keep (.found buffer) = none) →
      (∀ stream, keep (.shakes stream) = none) →
      (s.2 ++ goingOn s.1.transport answered.flight.point
        answered.next).filterMap keep = s.2.filterMap keep := by
    intro keep found shakes
    rw [List.filterMap_append, filterMap_goingOn found shakes,
      List.append_nil]
  unfold Balanced calls callbacks at balanced ⊢
  rw [log (fun _ => rfl) (fun _ => rfl), log (fun _ => rfl) (fun _ => rfl),
    outstanding]
  split
  case h_1 escapes =>
    rw [List.append_nil]
    by_cases same : answered.flight.operation = operation
    · have one : [answered.flight.operation].count operation = 1 := by
        simp [same]
      constructor
      · intro lost
        omega
      · intro stays
        exact (stays ⟨answered.flight, answered.next, answered.member, same,
          answered.resumed, escapes⟩).elim
    · have none : [answered.flight.operation].count operation = 0 := by
        simp [same]
      constructor
      · rintro _ ⟨flight, next, member, own, _⟩
        obtain rfl := Option.some.inj (answered.member.symm.trans member)
        exact same own
      · intro _
        omega
  case h_2 stays =>
    constructor
    · rintro _ ⟨flight, next, member, _, resumed, escapes⟩
      obtain rfl := Option.some.inj (answered.member.symm.trans member)
      obtain rfl := Option.some.inj (answered.resumed.symm.trans resumed)
      exact stays escapes
    · intro _
      rw [List.count_append]
      omega

theorem step_iff (balanced : Balanced operation s)
    {transport : Transport Byte}
    {t : State Byte Response × List (Note Byte)} {event : Event Byte}
    (stepped : (machine codec endpoint request transport).step s event =
      some t) :
    Balanced operation t ↔ ¬ Escapes codec endpoint operation s.1 event := by
  obtain ⟨u, log⟩ := t
  obtain ⟨underlying, rfl⟩ := Machine.logged_step stepped
  rcases step_cases underlying with ⟨call, rfl, idle, rfl⟩ |
    ⟨index, answer, rfl, ⟨answered⟩⟩ | ⟨completing, next, rfl, ends, rfl⟩
  · exact iff_of_true (balanced.call idle call) id
  · rw [answered.notes]
    exact balanced.answered answered
  · refine iff_of_true ?_ id
    have completed := balanced.completed ends
    rw [notes_complete ends, ← List.append_assoc]
    cases next with
    | none =>
        rw [Option.toList_none, List.map_nil, List.append_nil]
        exact completed.handled _
    | some call => exact (completed.call rfl call).handled _

end Balanced

/-- Only setting `TCP_NODELAY` lets an exception out of a connect. -/
theorem escape_of_connects {t : Transport Byte} {point : Point Byte Response}
    {answer : Answer Byte} {next : Step Byte Response}
    (connects : point.Connects codec endpoint t answer next)
    (escapes : next.2 = .escape) :
    (∃ error leavesOpen, answer = .connected none (some error) leavesOpen) ∧
      ∀ target, endpoint ≠ .secure target := by
  cases connects with
  | fails error ends =>
      rcases ends with ends | ends
      · rw [ends] at escapes
        cases escapes
      · rw [ends] at escapes
        cases escapes
  | opens => cases escapes
  | connects => cases escapes
  | shakes => cases escapes
  | asks => cases escapes
  | escapes throws => exact ⟨⟨_, _, rfl⟩, throws⟩
  | proxies =>
      rcases (tunnelProxied_cases _ _ _).1 with
        ⟨error, ends | ends⟩ | ⟨later, awaits⟩
      · rw [ends] at escapes
        cases escapes
      · rw [ends] at escapes
        cases escapes
      · rw [awaits] at escapes
        cases escapes
  | shaken => cases escapes

theorem resume_connected {stream : Nat} {t : Transport Byte}
    {point : Point Byte Response} {error : ErrorCode} {leavesOpen : Bool}
    {next : Step Byte Response}
    (resumed : point.resume codec endpoint stream t
      (.connected none (some error) leavesOpen) = some next)
    (notSecure : ∀ target, endpoint ≠ .secure target) :
    point.kind = .connect ∧ next.2 = .escape := by
  have unanswered : ∀ (io : IoPoint Byte Response) (buffer : List Byte),
      io.resume codec buffer (.connected none (some error) leavesOpen) =
        none := by
    intro io buffer
    cases io <;> rfl
  cases point with
  | connecting =>
      cases endpoint with
      | plain target =>
          obtain rfl := Option.some.inj resumed
          exact ⟨rfl, rfl⟩
      | secure target => exact (notSecure target rfl).elim
      | tunnel tunnel =>
          obtain rfl := Option.some.inj resumed
          exact ⟨rfl, rfl⟩
  | resolving domain service => cases resumed
  | proxying io =>
      cases endpoint <;> simp [Point.resume, unanswered] at resumed
  | handshaking => cases resumed
  | exchanging io => simp [Point.resume, unanswered] at resumed
  | closePosted => cases resumed
  | tcpClosing => cases resumed
  | shuttingDown => cases resumed

/-- `TCP_NODELAY` can be set on a socket that was connected, or the connect
asks for the error. -/
def setsNoDelay : SessionEndpoint → Event Byte → Bool
  | .secure _, _ => true
  | _, .answer _ (.connected none (some _) _) => false
  | _, _ => true

theorem setsNoDelay_eq_false {event : Event Byte} :
    setsNoDelay endpoint event = false ↔
      (∃ index error leavesOpen,
        event = .answer index (.connected none (some error) leavesOpen)) ∧
      ∀ target, endpoint ≠ .secure target := by
  constructor
  · intro throws
    unfold setsNoDelay at throws
    split at throws
    case h_1 => cases throws
    case h_2 notSecure =>
      exact ⟨⟨_, _, _, rfl⟩, notSecure⟩
    case h_3 => cases throws
  · rintro ⟨⟨index, error, leavesOpen, rfl⟩, notSecure⟩
    cases endpoint with
    | secure target => exact (notSecure target rfl).elim
    | plain target => rfl
    | tunnel tunnel => rfl

/-- Each connect that was called is outstanding or was called back. -/
def ConnectsBalanced (s : State Byte Response × List (Note Byte)) : Prop :=
  ∀ handler, Balanced (.connect (.start handler)) s

theorem connectsBalanced_step_iff
    {s t : State Byte Response × List (Note Byte)}
    (balanced : ConnectsBalanced s) (fits : Fitting s.1)
    {transport : Transport Byte} {event : Event Byte}
    (stepped : (machine codec endpoint request transport).step s event =
      some t) :
    ConnectsBalanced t ↔ setsNoDelay endpoint event = true := by
  have each : ConnectsBalanced t ↔ ∀ handler,
      ¬ Escapes codec endpoint (.connect (.start handler)) s.1 event :=
    forall_congr' fun handler => (balanced handler).step_iff stepped
  rw [each]
  constructor
  · intro stays
    by_contra throws
    rw [Bool.not_eq_true] at throws
    obtain ⟨⟨index, error, leavesOpen, rfl⟩, notSecure⟩ :=
      setsNoDelay_eq_false.mp throws
    rcases step_cases (Machine.logged_step stepped).1 with ⟨_, other, _⟩ |
      ⟨_, _, same, ⟨answered⟩⟩ | ⟨_, _, other, _⟩
    · cases other
    · cases same
      obtain ⟨call, operation, kind⟩ := fits _ answered.waited
      obtain ⟨connecting, escapes⟩ :=
        resume_connected answered.resumed notSecure
      cases call with
      | connect handler =>
          exact stays handler ⟨answered.flight, answered.next,
            answered.member, operation, answered.resumed, escapes⟩
      | exchange handler =>
          rw [kind] at connecting
          cases connecting
      | close graceful handler =>
          rw [kind] at connecting
          cases connecting
    · cases other
  · intro sets handler escapes
    cases event with
    | call made => exact escapes
    | complete next => exact escapes
    | answer index answer =>
        obtain ⟨flight, next, member, operation, resumed, escapes⟩ := escapes
        obtain ⟨call, same, kind⟩ := fits flight.toWaiting
          ((State.waiting_perm member).symm.subset List.mem_cons_self)
        have connecting : flight.point.kind = .connect := by
          rw [kind]
          cases call with
          | connect other => rfl
          | exchange other => simp [same, Call.operation] at operation
          | close graceful other => simp [same, Call.operation] at operation
        obtain ⟨⟨error, leavesOpen, rfl⟩, notSecure⟩ :=
          escape_of_connects (Point.connects resumed connecting) escapes
        have throws : setsNoDelay endpoint
            (.answer index (.connected none (some error) leavesOpen) :
              Event Byte) = false :=
          setsNoDelay_eq_false.mpr ⟨⟨index, error, leavesOpen, rfl⟩, notSecure⟩
        simp [throws] at sets

/-- How many answers a connect still waits for, at most, not counting those of
a read that goes on. -/
def stagesLeft : Point Byte Response → Nat
  | .resolving _ _ => 5
  | .connecting => 4
  | .proxying (.writing _) => 3
  | .proxying _ => 2
  | .handshaking => 1
  | _ => 0

/-- A connect that is answered completes or comes to a later stage, unless it
goes on reading. -/
def Advances (point : Point Byte Response) (next : Step Byte Response) : Prop :=
  (∃ ec, next.2.Ends ec) ∨
  ∃ later, next.2 = .await later ∧ (stagesLeft later < stagesLeft point ∨
    ∃ skip parsed parsed', point = .proxying (.reading skip parsed) ∧
      later = .proxying (.reading skip parsed'))

theorem advances_of_proxied {io : IoPoint Byte Response}
    {answer : Answer Byte} {buffer rest : List Byte}
    {result : IoResult Byte Response}
    (resumed : io.Resumed codec buffer answer rest result)
    (t : Transport Byte) :
    Advances (.proxying io) (tunnelProxied codec result t) := by
  have ended : ∀ (read : Except ErrorCode Response)
      (io' : IoPoint Byte Response),
      2 ≤ stagesLeft (.proxying io' : Point Byte Response) →
      Advances (.proxying io') (tunnelProxied codec (.ofExcept read) t) := by
    intro read io' left
    cases read with
    | error error => exact .inl ⟨some error, .inl rfl⟩
    | ok response =>
        by_cases accepted : codec.status response = 200
        · refine .inr ⟨.handshaking, ?_, .inl left⟩
          simp [IoResult.ofExcept, tunnelProxied, accepted]
        · refine .inl ⟨some .connectionRefused, .inr ?_⟩
          simp [IoResult.ofExcept, tunnelProxied, accepted]
  cases resumed with
  | @wrote request closes =>
      rcases startRead_cases codec request.skipsBody t.buffer with
        ⟨rest, parsed, _, reads⟩ | ⟨rest, read, _, reads⟩
      · have awaits : (tunnelProxied codec (.wrote request) t).2 =
            .await (.proxying (.reading request.skipsBody parsed)) := by
          simp only [tunnelProxied, reads]
        exact .inr ⟨_, awaits, .inl (Nat.lt_succ_self 2)⟩
      · have awaits : (tunnelProxied codec (.wrote request) t).2 =
            .await (.proxying (.read read)) := by
          simp only [tunnelProxied, reads]
        exact .inr ⟨_, awaits, .inl (Nat.lt_succ_self 2)⟩
  | writeFailed => exact .inl ⟨_, .inl rfl⟩
  | more fed => exact .inr ⟨_, rfl, .inr ⟨_, _, _, rfl, rfl⟩⟩
  | read fed => exact ended _ _ (Nat.le_refl 2)
  | finished => exact ended _ _ (Nat.le_refl 2)
  | readFailed notEof => exact .inl ⟨_, .inl rfl⟩
  | posted => exact ended _ _ (Nat.le_refl 2)

theorem advances_of_connects {t : Transport Byte} {point : Point Byte Response}
    {answer : Answer Byte} {next : Step Byte Response}
    (connects : point.Connects codec endpoint t answer next) :
    next.2 = .escape ∨ Advances point next := by
  cases connects with
  | fails error ends => exact .inr (.inl ⟨_, ends⟩)
  | opens => exact .inr (.inr ⟨_, rfl, .inl (Nat.lt_succ_self 4)⟩)
  | connects => exact .inr (.inl ⟨none, .inl rfl⟩)
  | shakes => exact .inr (.inr ⟨_, rfl, .inl (show 1 < 4 by decide)⟩)
  | asks => exact .inr (.inr ⟨_, rfl, .inl (show 3 < 4 by decide)⟩)
  | escapes => exact .inl rfl
  | proxies _ resumed => exact .inr (advances_of_proxied resumed _)
  | shaken => exact .inr (.inl ⟨none, .inl rfl⟩)

/-- Every connect is called back once, as long as `TCP_NODELAY` can be set; an
answer brings it to its end or to a later stage. -/
structure CalledBack (codec : Codec Byte Response) (endpoint : SessionEndpoint)
    (s : State Byte Response × List (Note Byte)) : Prop where
  balanced : ConnectsBalanced s
  advances : ∀ flight ∈ s.1.flights, flight.point.kind = .connect →
    ∀ index answer next, setsNoDelay endpoint (.answer index answer) = true →
    flight.point.resume codec endpoint flight.stream s.1.transport answer =
      some next → Advances flight.point next

/-- In every interleaving each connect is called back once exactly as long as
no step fails to set `TCP_NODELAY` where that throws. -/
theorem reached_calledBack {transport : Transport Byte}
    {s : State Byte Response × List (Note Byte)}
    (reached : (machine codec endpoint request transport).ReachedBy
      (fun _ event => setsNoDelay endpoint event = true) s) :
    CalledBack codec endpoint s ∧ ∀ event t,
      (machine codec endpoint request transport).step s event = some t →
      (ConnectsBalanced t ↔ setsNoDelay endpoint event = true) := by
  have balanced : ConnectsBalanced s := by
    refine reached.invariant (fun _ => rfl) ?_
    intro before event after earlier balanced sets stepped
    exact (connectsBalanced_step_iff balanced (reached_fits earlier.reached)
      stepped).mpr sets
  refine ⟨⟨balanced, ?_⟩, fun event t stepped => connectsBalanced_step_iff
    balanced (reached_fits reached.reached) stepped⟩
  intro flight _ connecting index answer next sets resumed
  have connects := Point.connects resumed connecting
  rcases advances_of_connects connects with escapes | advances
  · obtain ⟨⟨error, leavesOpen, rfl⟩, notSecure⟩ :=
      escape_of_connects connects escapes
    have throws : setsNoDelay endpoint
        (.answer index (.connected none (some error) leavesOpen) :
          Event Byte) = false :=
      setsNoDelay_eq_false.mpr ⟨⟨index, error, leavesOpen, rfl⟩, notSecure⟩
    simp [throws] at sets
  · exact advances

/-- The TLS transport asks for the error and reports it. -/
def resetRun : List (Event Char) :=
  [.call (.connect 0), .answer 0 (.resolved none none true),
    .answer 0 (.connected none (some (.other 22)) false), .complete none]

theorem calledBack_of_resetRun :
    ∃ s, (machine textCodec (.secure ⟨"target", 443⟩) (fun _ => exampleRequest)
          {}).runWhere (fun _ event =>
            setsNoDelay (.secure ⟨"target", 443⟩) event = true)
          ({}, []) resetRun = some s ∧
      s.2 = [.called (.connect 0),
        .completed (.connect (.start 0)) (some (.other 22))] ∧
      CalledBack textCodec (.secure ⟨"target", 443⟩) s := by
  have executed : ((machine textCodec (.secure ⟨"target", 443⟩)
        (fun _ => exampleRequest) {}).runWhere (fun _ event =>
          setsNoDelay (.secure ⟨"target", 443⟩) event = true)
        ({}, []) resetRun).map (fun s => s.2) =
      some [.called (.connect 0),
        .completed (.connect (.start 0)) (some (.other 22))] := by
    decide +kernel
  obtain ⟨s, run, log⟩ := Option.map_eq_some_iff.mp executed
  exact ⟨s, run, log,
    (reached_calledBack (Machine.reachedBy_of_runWhere resetRun run)).1⟩

/-- The same on a tcp transport: nothing is outstanding and nobody was
called. -/
theorem resetRun_not_balanced :
    ¬∀ (endpoint : SessionEndpoint) (s : State Char TextResponse ×
        List (Note Char)),
      (machine textCodec endpoint (fun _ => exampleRequest) {}).Reached s →
      ConnectsBalanced s := by
  intro balanced
  have executed : ((machine textCodec (.plain ⟨"target", 80⟩)
        (fun _ => exampleRequest) {}).run ({}, [])
        (resetRun.take 3)).map (fun s => (s.2, s.1.outstanding)) =
      some ([.called (.connect 0)], []) := by
    decide +kernel
  obtain ⟨s, run, facts⟩ := Option.map_eq_some_iff.mp executed
  obtain ⟨log, outstanding⟩ := Prod.mk.inj facts
  have lost := balanced _ s (Machine.reached_of_run _ run) 0
  rw [Balanced, log, outstanding] at lost
  exact absurd lost (by decide)

end Call

end Connection

end Fetchpp

import Fetchpp.Session.Retrying
import Fetchpp.Connection.Responses
import Fetchpp.Connection.Resting

/-!
# Requests that are tried again

Without `async_start` and `async_stop` a session has one operation on its
transport at a time, and nothing cancels it.  So an exchange never ends with
`operation_aborted`, a close that ends leaves the socket closed, and a request
is tried again on a closed socket: each request goes through one of the
stories.  It comes to the end of it if no exception takes its connect away.
-/

namespace Fetchpp

namespace Connection

open Session Http Lib

variable {Byte Response : Type} {codec : Codec Byte Response}
  {endpoint : SessionEndpoint} {request : PushId → Request}

def Event.PushOnly : Event Byte → Prop
  | .start => False
  | .stop _ => False
  | _ => True

instance : (event : Event Byte) → Decidable event.PushOnly
  | .start | .stop _ => inferInstanceAs (Decidable False)
  | .push | .post _ | .timer _ _ _ | .answer _ _ | .complete =>
      inferInstanceAs (Decidable True)

def Event.notes (s : State Byte Response) (event : Event Byte) : List Note :=
  match event.label s with
  | none => []
  | some event' => event'.notes s.session

abbrev loggedMachine (codec : Codec Byte Response) (endpoint : SessionEndpoint)
    (request : PushId → Request) :
    Machine (State Byte Response × List Note) (Event Byte) :=
  (machine codec endpoint request).logged (fun s event => event.notes s)

/-- A connection keeps the log of its session. -/
theorem simulation_logged : Machine.Simulation
    (loggedMachine codec endpoint request)
    (Session.machine.logged (fun s event => Session.Event.notes s event))
    (fun s image => s.1.session = image.1 ∧ s.2 = image.2)
    (fun s event => event.label s.1) := by
  apply simulation.logged
  · intro before event unnamed
    simp [Event.notes, unnamed]
  · rintro before event image event' rfl named
    simp [Event.notes, named]

theorem Event.PushOnly.label {s : State Byte Response} {event : Event Byte}
    (pushOnly : event.PushOnly) {event' : Session.Event}
    (label : event.label s = some event') : event'.PushOnly := by
  cases event' with
  | start =>
      rw [Event.label_start label] at pushOnly
      exact pushOnly
  | stop graceful =>
      rw [Event.label_stop label] at pushOnly
      exact pushOnly
  | push => trivial
  | post handler isOpen => trivial
  | resume operation ec isOpen => trivial

theorem reached_pushOnly {s : State Byte Response}
    (reached : (machine codec endpoint request).ReachedBy
      (fun _ event => event.PushOnly) s) :
    Session.machine.ReachedBy (fun _ event => event.PushOnly) s.session := by
  obtain ⟨image, imageReached, rfl⟩ := simulation.reachedBy
    (fun _ _ _ _ _ _ pushOnly _ label => pushOnly.label label) reached
  exact imageReached

/-- Where an operation of the queue waits. -/
def Waiting.Sound (t : Transport Byte) (waiting : Waiting Byte Response) :
    Prop :=
  match waiting.operation with
  | .connect (.queue _) =>
      waiting.point.kind = .connect ∧ t.running = true
  | .exchange _ =>
      waiting.point.kind = .exchange ∧ t.running = true ∧
      waiting.point ≠ .exchanging (.read (.error .operationAborted))
  | .close _ (.queue _) =>
      waiting.point.kind = .close ∧
      (waiting.point = .closePosted → t.isOpen = false) ∧
      (waiting.point = .shuttingDown → waiting.stream = t.stream)
  | _ => False

/-- How an operation of the queue ends. -/
def Ended (t : Transport Byte) (operation : Operation)
    (ec : Option ErrorCode) : Prop :=
  match operation with
  | .connect (.queue _) => t.running = true
  | .exchange _ => t.running = true ∧ ec ≠ some .operationAborted
  | .close _ (.queue _) => t.isOpen = false ∧ ec ≠ some .operationAborted
  | _ => False

namespace State

inductive Work (s : State Byte Response) : Prop where
  | idle (flights : s.flights = []) (completing : s.completing = none)
      (idle : s.transport.isOpen = true → s.transport.running = true)
  | waits (flight : Flight Byte Response) (flights : s.flights = [flight])
      (completing : s.completing = none)
      (notCancelled : flight.cancelled = false)
      (sound : flight.toWaiting.Sound s.transport)
  | ends (completing : Completing) (flights : s.flights = [])
      (some : s.completing = some completing)
      (ended : Ended s.transport completing.operation completing.ec)

structure Calm (s : State Byte Response) : Prop where
  work : s.Work
  /-- a request is tried again on a closed socket -/
  retries : ∀ op, .retry op ∈ s.session.posts → s.transport.isOpen = false

end State

/-- A step of an operation keeps to the work. -/
def GoesOn (operation : Operation) (next : Step Byte Response) : Prop :=
  match next.2 with
  | .await point =>
      Waiting.Sound next.1 (⟨operation, point, next.1.stream⟩ :
        Waiting Byte Response)
  | .complete ec => Ended next.1 operation ec
  | .completeFirst ec => Ended next.1 operation ec
  | .deliver _ => Ended next.1 operation none
  | .escape => next.1.isOpen = true → next.1.running = true

theorem State.work_enter {s : State Byte Response} (noFlights : s.flights = [])
    (idle : s.completing = none) {operation : Operation}
    {next : Step Byte Response} (goesOn : GoesOn operation next) :
    (s.enter operation next).Work := by
  obtain ⟨t, yield⟩ := next
  unfold enter
  rw [setTransport_nil noFlights]
  cases yield with
  | await point =>
      have same := record_sameBut operation point
        { s with
          transport := t
          flights := s.flights ++ [⟨⟨operation, point, t.stream⟩, false⟩] }
      refine .waits ⟨⟨operation, point, t.stream⟩, false⟩ ?_
        (same.completing.trans idle) rfl ?_
      · exact same.flights.trans (by rw [noFlights]; rfl)
      · rw [same.transport]
        exact goesOn
  | complete ec => exact .ends _ noFlights rfl goesOn
  | completeFirst ec => exact .ends _ noFlights rfl goesOn
  | deliver response => exact .ends _ noFlights rfl goesOn
  | escape => exact .idle noFlights idle goesOn

theorem Flight.not_aborted {flight : Flight Byte Response}
    (notCancelled : flight.cancelled = false) {ec : Option ErrorCode}
    {closes : Bool} (mayAnswer : flight.mayAnswer (.ended ec closes) = true) :
    ec ≠ some .operationAborted := by
  rintro rfl
  simp [Flight.mayAnswer, notCancelled] at mayAnswer

theorem goesOn_connect (op : QueueOp) {t : Transport Byte}
    (running : t.running = true) {next : Step Byte Response}
    (stays : next.2.StaysIn .connect) (kept : next.1.running = t.running) :
    GoesOn (.connect (.queue op)) next := by
  obtain ⟨u, yield⟩ := next
  have runs : u.running = true := kept.trans running
  cases yield with
  | await point => exact ⟨stays, runs⟩
  | complete ec => exact runs
  | completeFirst ec => exact runs
  | deliver response => exact runs
  | escape => exact fun _ => runs

theorem goesOn_failed (op : QueueOp) {t : Transport Byte}
    (running : t.running = true) {error : ErrorCode}
    (notAborted : error ≠ .operationAborted) :
    GoesOn (.exchange op)
      (processOneResume codec (.failed error) t) :=
  ⟨running, fun same => notAborted (Option.some.inj same)⟩

theorem goesOn_read (op : QueueOp) {t : Transport Byte}
    (running : t.running = true) {result : Except ErrorCode Response}
    (notAborted : result ≠ .error .operationAborted) :
    GoesOn (.exchange op)
      (processOneResume codec (.ofExcept result) t) := by
  cases result with
  | error error =>
      exact goesOn_failed op running
        (fun same => notAborted (congrArg Except.error same))
  | ok response =>
      have delivered : processOneResume codec
          (.ofExcept (.ok response : Except ErrorCode Response)) t =
          (t.cancelTimer, .deliver response) := by
        simp [IoResult.ofExcept, processOneResume, running]
      rw [delivered]
      exact ⟨running, by simp⟩

theorem ParserErrors.feed (errors : ParserErrors codec) {skip : Bool}
    {parsed buffer rest : List Byte} {result : Except ErrorCode Response}
    (fed : (codec.parser skip).feed parsed buffer = (rest, .ended result)) :
    result ≠ .error .operationAborted := by
  rintro rfl
  obtain ⟨used, parse⟩ := Lib.Framing.feed_failed fed
  exact errors.parse _ _ _ parse

theorem goesOn_exchange (errors : ParserErrors codec) (op : QueueOp)
    {t : Transport Byte} (running : t.running = true)
    {io : IoPoint Byte Response}
    (notPosted : Point.exchanging io ≠
      .exchanging (.read (.error .operationAborted)))
    {stream : Nat} {answer : Answer Byte}
    (notAborted : ∀ ec closes, answer = .ended ec closes →
      ec ≠ some .operationAborted)
    {next : Step Byte Response}
    (resumed : (Point.exchanging io).resume codec endpoint stream t answer =
      some next) :
    GoesOn (.exchange op) next := by
  obtain ⟨result, u, answered, kept, _, _, rfl⟩ :=
    Point.resume_exchanging resumed
  have runs : u.running = true := kept.trans running
  have failed : ∀ error closes, answer = .ended (some error) closes →
      error ≠ .operationAborted := by
    rintro error closes same rfl
    exact notAborted _ _ same rfl
  generalize u.buffer = rest at answered
  cases answered with
  | @wrote sent closes =>
      simp only [processOneResume, runs, Bool.not_true, Bool.false_eq_true,
        if_false]
      refine ⟨rfl, rfl, ?_⟩
      rcases startRead_cases codec sent.skipsBody u.buffer with
        ⟨left, parsed, _, starts⟩ | ⟨left, result, fed, starts⟩
      · simp [starts]
      · have harmless := errors.feed fed
        simpa [starts] using harmless
  | writeFailed => exact goesOn_failed op runs (failed _ _ rfl)
  | more fed => exact ⟨rfl, runs, by simp⟩
  | read fed => exact goesOn_read op runs (errors.feed fed)
  | finished => exact goesOn_read op runs (errors.finish _ _)
  | readFailed => exact goesOn_failed op runs (failed _ _ rfl)
  | posted =>
      refine goesOn_read op runs ?_
      rintro rfl
      exact notPosted rfl

theorem goesOn_close (graceful : GracefulShutdown) (op : QueueOp)
    {t : Transport Byte} {waiting : Waiting Byte Response}
    (operation : waiting.operation = .close graceful (.queue op))
    (sound : waiting.Sound t) {answer : Answer Byte}
    {next : Step Byte Response}
    (resumed : waiting.point.resume codec endpoint waiting.stream t answer =
      some next) :
    GoesOn (.close graceful (.queue op)) next := by
  unfold Waiting.Sound at sound
  rw [operation] at sound
  obtain ⟨kind, posted, shutting⟩ := sound
  obtain ⟨ec, u, closing, rfl⟩ := Point.closes resumed kind
  have notOpen : u.isOpen = false := by
    refine closing.closes ?_ ?_
    · intro point
      exact Transport.afterAnswer_closed (posted point)
    · intro point
      exact .inl ((shutting point).trans (t.afterAnswer_stream _ _).symm)
  unfold GoesOn
  rw [closed_completes]
  exact ⟨closed_isOpen endpoint ec notOpen, closing.not_aborted⟩

theorem Waiting.Sound.goesOn (errors : ParserErrors codec)
    {t : Transport Byte} {flight : Flight Byte Response}
    (sound : flight.toWaiting.Sound t)
    (notCancelled : flight.cancelled = false) {answer : Answer Byte}
    (mayAnswer : flight.mayAnswer answer = true) {next : Step Byte Response}
    (resumed : flight.point.resume codec endpoint flight.stream t answer =
      some next) : GoesOn flight.operation next := by
  have notAborted : ∀ ec closes, answer = .ended ec closes →
      ec ≠ some .operationAborted := by
    rintro ec closes rfl
    exact Flight.not_aborted notCancelled mayAnswer
  have whole := sound
  unfold Waiting.Sound at sound
  split at sound
  case h_1 op operation =>
    rcases Point.resume_cases resumed with ⟨_, keeps⟩ | ⟨kind, _⟩
    · rw [operation]
      have stays := keeps.stays
      rw [sound.1] at stays
      exact goesOn_connect op sound.2 stays (Point.resume_running resumed)
    · rw [sound.1] at kind
      cases kind
  case h_2 op operation =>
    obtain ⟨kind, running, notPosted⟩ := sound
    rw [operation]
    obtain ⟨io, exchanging⟩ := Point.exchanging_of_kind kind
    rw [exchanging] at notPosted resumed
    exact goesOn_exchange errors op running notPosted notAborted resumed
  case h_3 graceful op operation =>
    rw [operation]
    exact goesOn_close graceful op operation whole resumed
  case h_4 => exact sound.elim

namespace State

theorem Work.answered {s t : State Byte Response} (work : s.Work)
    (errors : ParserErrors codec) {index : Nat} {answer : Answer Byte}
    (answered : Answered codec endpoint s index answer t) : t.Work := by
  cases work with
  | idle flights =>
      have member := answered.member
      simp [flights] at member
  | ends completing flights some =>
      have idle := answered.idle
      simp [some] at idle
  | waits flight flights completing notCancelled sound =>
      have member := answered.member
      rw [flights, List.getElem?_singleton] at member
      split at member
      case isFalse => cases member
      case isTrue first =>
        have same := Option.some.inj member
        subst first
        have resumed := answered.resumed
        have mayAnswer := answered.mayAnswer
        have after := answered.after
        rw [← same] at resumed mayAnswer after
        rw [after]
        have kept := hear_sameBut flight.point answer
          { s with flights := s.flights.eraseIdx 0, completing := none }
        refine work_enter ?_ kept.completing ?_
        · rw [kept.flights, flights]
          rfl
        · exact sound.goesOn errors notCancelled mayAnswer resumed

theorem Work.end_handler {s : State Byte Response} (work : s.Work)
    (cancelTimer : Bool) : (s.handled cancelTimer).Work := by
  unfold handled
  split
  · cases work with
    | idle flights completing idle => exact .idle flights completing idle
    | waits flight flights completing notCancelled sound =>
        refine .waits flight flights completing notCancelled ?_
        unfold Waiting.Sound at sound ⊢
        split at sound
        · assumption
        · assumption
        · assumption
        · exact sound.elim
    | ends completing flights some ended =>
        refine .ends completing flights some ?_
        unfold Ended at ended ⊢
        split at ended
        · assumption
        · assumption
        · assumption
        · exact ended.elim
  · exact work

theorem Work.resumes {s : State Byte Response} (work : s.Work)
    {operation : Operation} (member : operation ∈ s.outstanding) :
    ∃ op, operation.queueOp? = some op := by
  cases work with
  | idle flights completing =>
      simp [outstanding, waiting, flights, completing] at member
  | waits flight flights completing _ sound =>
      obtain rfl : operation = flight.operation := by
        simpa [outstanding, waiting, flights, completing] using member
      unfold Waiting.Sound at sound
      split at sound
      case h_1 op same => exact ⟨op, congrArg Operation.queueOp? same⟩
      case h_2 op same => exact ⟨op, congrArg Operation.queueOp? same⟩
      case h_3 graceful op same =>
        exact ⟨op, congrArg Operation.queueOp? same⟩
      case h_4 => exact sound.elim
  | ends completing flights some ended =>
      obtain rfl : operation = completing.operation := by
        simpa [outstanding, waiting, flights, some] using member
      unfold Ended at ended
      split at ended
      case h_1 op same => exact ⟨op, congrArg Operation.queueOp? same⟩
      case h_2 op same => exact ⟨op, congrArg Operation.queueOp? same⟩
      case h_3 graceful op same =>
        exact ⟨op, congrArg Operation.queueOp? same⟩
      case h_4 => exact ended.elim

theorem Work.of_posted {s : State Byte Response} (work : s.Work)
    (linked : s.Linked) (invariant : s.session.Invariant) {handler : Posted}
    (posted : handler ∈ s.session.posts) :
    s.flights = [] ∧ s.completing = none ∧
      (s.transport.isOpen = true → s.transport.running = true) := by
  have none : ∀ operation ∈ s.outstanding, False := by
    intro operation member
    obtain ⟨op, resumes⟩ := work.resumes member
    have notQueue := linked.queueOps_nil invariant posted member
    simp [resumes] at notQueue
  cases work with
  | idle flights completing idle => exact ⟨flights, completing, idle⟩
  | waits flight flights =>
      refine (none flight.operation ?_).elim
      simp [outstanding, waiting, flights]
  | ends completing flights some =>
      refine (none completing.operation ?_).elim
      simp [outstanding, some]

theorem work_connect {s : State Byte Response} (noFlights : s.flights = [])
    (idle : s.completing = none) (op : QueueOp) :
    (s.launch endpoint request (.connect (.queue op))).Work := by
  apply work_enter noFlights idle
  cases endpoint with
  | plain endpoint => exact ⟨rfl, rfl⟩
  | secure endpoint => exact ⟨rfl, rfl⟩
  | tunnel endpoint => exact ⟨rfl, rfl⟩

theorem work_exchange {s : State Byte Response} (noFlights : s.flights = [])
    (idle : s.completing = none) (running : s.transport.running = true)
    (op : QueueOp) : (s.launch endpoint request (.exchange op)).Work := by
  apply work_enter noFlights idle
  simp only [processOne, running, Bool.not_true, Bool.false_eq_true, if_false]
  exact ⟨rfl, running, by simp⟩

theorem work_close {s : State Byte Response} (noFlights : s.flights = [])
    (idle : s.completing = none) (op : QueueOp) :
    (s.launch endpoint request (.close .yes (.queue op))).Work := by
  simp only [launch, cancelForClose_nil noFlights]
  apply work_enter noFlights idle
  rcases close_waits endpoint .yes s.transport with
    ⟨point, kind, posted, waits⟩ | ⟨other, _⟩
  · rw [waits]
    exact ⟨kind, posted, fun _ => rfl⟩
  · cases other

theorem Work.dispatched {s t : State Byte Response} (work : s.Work)
    (linked : s.Linked)
    (reached : Session.machine.ReachedBy (fun _ event => event.PushOnly)
      s.session)
    (idle : s.completing = none) {event : Session.Event}
    (pushOnly : event.PushOnly)
    (isOpen : ∀ handler posted, event = .post handler posted →
      posted = s.transport.isOpen)
    (handled : Handled endpoint request s event t) : t.Work := by
  have before : (s.resumed handled.session).Work := by
    cases work with
    | idle flights _ idle => exact .idle flights rfl idle
    | waits flight flights _ notCancelled sound =>
        exact .waits flight flights rfl notCancelled sound
    | ends completing _ same => simp [idle] at same
  have enabled := (step_eq handled.stepped).1
  have alone := handled.alone idle
  rcases handled.cases (reached_atPoints reached.reached) with quiet |
    ⟨effect, operation, next, starts, _, begun, launched⟩
  · rw [quiet]
    exact before.end_handler _
  · rw [launched]
    apply Work.end_handler
    cases starts with
    | elsewhere isLocal => cases effect <;> cases isLocal <;> cases begun
    | start => exact pushOnly.elim
    | stop graceful => exact pushOnly.elim
    | connect takes =>
        obtain ⟨flights, _, _⟩ :=
          work.of_posted linked (reached_invariant reached.reached) enabled
        apply work_connect
        · exact flights
        · rfl
    | reuse takes =>
        obtain ⟨flights, _, open'⟩ :=
          work.of_posted linked (reached_invariant reached.reached) enabled
        apply work_exchange
        · exact flights
        · rfl
        · exact open' (isOpen _ _ rfl).symm
    | connected _ _ =>
        obtain ⟨_, _, other⟩ := alone _ _ _ rfl
        cases other
    | failed _ _ _ =>
        obtain ⟨_, _, other⟩ := alone _ _ _ rfl
        cases other

theorem Work.completed {s t : State Byte Response} (work : s.Work)
    (points : s.session.AtPoints) {completing : Completing}
    (completed : s.completing = some completing) {event : Session.Event}
    (handled : Handled endpoint request s event t) : t.Work := by
  cases work with
  | idle _ none => simp [completed] at none
  | waits _ _ none => simp [completed] at none
  | ends other flights same ended =>
      obtain rfl : other = completing := by simpa [same] using completed
      have caller := handled.caller other same
      obtain ⟨operation, ec, cancelTimer⟩ := other
      subst caller
      have silent : (s.transport.isOpen = true →
          s.transport.running = true) →
          (s.resumed handled.session).Work := fun open' =>
        .idle flights rfl open'
      rcases handled.cases points with quiet |
        ⟨effect, started, next, starts, _, begun, launched⟩
      · rw [quiet]
        apply Work.end_handler
        refine silent ?_
        intro isOpen
        unfold Ended at ended
        split at ended
        · exact ended
        · exact ended.1
        · rw [ended.1] at isOpen
          cases isOpen
        · exact ended.elim
      · rw [launched]
        apply Work.end_handler
        cases starts with
        | elsewhere isLocal => cases effect <;> cases isLocal <;> cases begun
        | connected running task =>
            apply work_exchange
            · exact flights
            · rfl
            · exact ended
        | failed running task notAborted =>
            apply work_close
            · exact flights
            · rfl

/-- A request that is tried again when a handler returns was posted by it, or
before a push. -/
theorem Calm.handled {s t : State Byte Response} (calm : s.Calm)
    (reached : Session.machine.ReachedBy (fun _ event => event.PushOnly)
      s.session) {event : Session.Event} (pushOnly : event.PushOnly)
    (handled : Handled endpoint request s event t)
    (ended : ∀ graceful op ec isOpen,
      event = .resume (.close graceful (.queue op)) ec isOpen →
      s.transport.isOpen = false)
    (work : t.Work) : t.Calm := by
  refine ⟨work, ?_⟩
  intro op posted
  have points := reached_atPoints reached.reached
  have enabled := (step_eq handled.stepped).1
  have session : handled.session =
      (event.taken s.session).apply (event.outcome s.session.core) :=
    (step_eq handled.stepped).2
  have unchanged : t = (s.resumed handled.session).handled
      handled.cancelTimer → t.transport.isOpen = s.transport.isOpen := by
    intro quiet
    rw [quiet]
    exact handled_isOpen _ _
  rw [handled.session_eq, session] at posted
  rcases Session.State.posts_apply posted with earlier | now
  · obtain rfl := push_of_posts_taken reached pushOnly enabled earlier
    rcases handled.cases points with quiet | ⟨effect, _, _, starts, _, begun, _⟩
    · rw [unchanged quiet]
      exact calm.retries op earlier
    · cases starts with
      | elsewhere isLocal => cases effect <;> cases isLocal <;> cases begun
  · obtain ⟨graceful, closer, ec, isOpen, rfl⟩ :=
      Session.Event.retry_posted (points.event enabled) now
    rcases handled.cases points with quiet | ⟨effect, _, _, starts, _, begun, _⟩
    · rw [unchanged quiet]
      exact ended _ _ _ _ rfl
    · cases starts with
      | elsewhere isLocal => cases effect <;> cases isLocal <;> cases begun

theorem Calm.answered {s t : State Byte Response} (calm : s.Calm)
    (errors : ParserErrors codec) (linked : s.Linked)
    (invariant : s.session.Invariant) {index : Nat} {answer : Answer Byte}
    (answered : Answered codec endpoint s index answer t) : t.Calm := by
  refine ⟨calm.work.answered errors answered, ?_⟩
  intro op posted
  rw [answered.entered.session] at posted
  obtain ⟨noFlights, _⟩ := calm.work.of_posted linked invariant posted
  have member := answered.member
  simp [noFlights] at member

end State

theorem reached_calm (errors : ParserErrors codec) {s : State Byte Response}
    (reached : (machine codec endpoint request).ReachedBy
      (fun _ event => event.PushOnly) s) : s.Calm := by
  refine reached.invariant ⟨.idle rfl rfl (by simp [machine]), by
    simp [machine]⟩ ?_
  intro before event after earlier calm pushOnly stepped
  have session := reached_pushOnly earlier
  have linked := reached_linked earlier.reached
  rcases step_cases stepped with ⟨index, answer, rfl, ⟨answered⟩⟩ |
    ⟨event', label, ⟨handled⟩⟩
  · exact calm.answered errors linked (reached_invariant session.reached)
      answered
  · have pushOnly' := pushOnly.label label
    cases completed : before.completing with
    | none =>
        refine calm.handled session pushOnly' handled ?_
          (calm.work.dispatched linked session completed pushOnly' ?_ handled)
        · intro graceful op ec isOpen same
          obtain ⟨_, _, other⟩ := handled.alone completed _ _ _ same
          cases other
        · rintro handler posted rfl
          exact (Event.label_post label).2
    | some completing =>
        refine calm.handled session pushOnly' handled ?_
          (calm.work.completed (reached_atPoints session.reached) completed
            handled)
        intro graceful op ec isOpen same
        have caller := handled.caller completing completed
        rw [same] at caller
        have operation : completing.operation = .close graceful (.queue op) :=
          (Session.Event.resume.inj caller).1.symm
        cases calm.work with
        | idle _ none => simp [completed] at none
        | waits _ _ none => simp [completed] at none
        | ends other _ some ended =>
            obtain rfl : other = completing := by
              simpa [some] using completed
            rw [operation] at ended
            exact ended.1

theorem State.Calm.plain {s t : State Byte Response} (calm : s.Calm)
    {event : Event Byte} (pushOnly : event.PushOnly)
    (stepped : step codec endpoint request s event = some t)
    {event' : Session.Event} (label : event.label s = some event') :
    event'.Plain := by
  have pushOnly' := pushOnly.label label
  rcases step_cases stepped with ⟨_, _, rfl, _⟩ | ⟨other, same, ⟨handled⟩⟩
  · cases label
  · obtain rfl : other = event' := Option.some.inj (same.symm.trans label)
    have enabled := (step_eq handled.stepped).1
    cases other with
    | start => exact pushOnly'
    | stop graceful => exact pushOnly'
    | push => trivial
    | post handler isOpen =>
        cases handler with
        | processTask => trivial
        | advanceTask => trivial
        | retry op =>
            obtain ⟨_, rfl⟩ := Event.label_post label
            exact calm.retries op enabled
    | resume operation ec isOpen =>
        cases completed : s.completing with
        | none =>
            obtain ⟨_, _, rfl⟩ := handled.alone completed _ _ _ rfl
            trivial
        | some completing =>
            have caller := handled.caller completing completed
            obtain ⟨rfl, rfl, _⟩ := Session.Event.resume.inj caller
            cases calm.work with
            | idle _ none => simp [completed] at none
            | waits _ _ none => simp [completed] at none
            | ends other _ some ended =>
                obtain rfl : other = completing := by
                  simpa [some] using completed
                unfold Ended at ended
                split at ended
                case h_1 op same =>
                  rw [same]
                  trivial
                case h_2 op same =>
                  rw [same]
                  exact ended.2
                case h_3 graceful op same =>
                  rw [same]
                  exact ended.2
                case h_4 => exact ended.elim

/-- What happens to a request: a part of a story, at whose end its handler is
posted. -/
structure Narrated (core : Core) (log : List Note) (push : PushId) : Prop where
  story : ∃ story, Story story ∧ told push log <+: story
  handler : ∀ ec, ⟨push, ec, .complete⟩ ∈ core.posted ↔
    .finished ec ∈ told push log

theorem reached_narrated (errors : ParserErrors codec)
    {s : State Byte Response × List Note}
    (reached : (loggedMachine codec endpoint request).ReachedBy
      (fun _ event => event.PushOnly) s) :
    s.1.session.Chronicled s.2 ∧ ∀ push, Narrated s.1.session.core s.2 push := by
  have calm : ∀ {state : State Byte Response × List Note},
      (loggedMachine codec endpoint request).ReachedBy
        (fun _ event => event.PushOnly) state → state.1.Calm :=
    fun earlier => reached_calm errors (Machine.ReachedBy.unlogged earlier)
  have plain : ∃ image, (Session.machine.logged
        (fun s event => Session.Event.notes s event)).ReachedBy
          (fun _ event => event.Plain) image ∧
      (s.1.session = image.1 ∧ s.2 = image.2) := by
    refine simulation_logged.reachedBy ?_ (reached.joined calm)
    rintro before event after image event' _ ⟨pushOnly, calmBefore⟩ stepped
      named
    exact calmBefore.plain pushOnly (Machine.logged_step stepped).1 named
  obtain ⟨⟨image, log⟩, imageReached, rfl, rfl⟩ := plain
  have chronicled := Session.reached_chronicled imageReached
  refine ⟨chronicled, fun push => ⟨chronicled.story push, ?_⟩⟩
  intro ec
  rw [mem_told]
  exact (reached_logged imageReached.reached push ec).symm

/-- The processing of a request: it goes through a story, to its end. -/
structure Recounted (codec : Codec Byte Response) (endpoint : SessionEndpoint)
    (request : PushId → Request) (s : State Byte Response × List Note)
    (push : PushId) : Prop where
  narrated : Narrated s.1.session.core s.2 push
  /-- apart from the chunks of responses there is an end to what can happen -/
  bounded : ∃ bound, ∀ later final, (∀ event ∈ later, event.isCall = false) →
    (machine codec endpoint request).run s.1 later = some final →
    later.countP (fun event => !event.isChunk) ≤ bound
  /-- where nothing more can happen the story of a request that was taken up
  has been told, and every handler has been posted -/
  ends : (machine codec endpoint request).AtRest (Event.isOwn endpoint) s.1 →
    (push ∈ s.1.session.core.ran → Story (told push s.2)) ∧
    (push < s.1.session.core.pushes →
      (s.1.session.core.postsOf push).length = 1)

theorem recounted_of_setsNoDelay (errors : ParserErrors codec)
    {s : State Byte Response × List Note}
    (reached : (loggedMachine codec endpoint request).ReachedBy
      (fun _ event => event.PushOnly ∧ event.setsNoDelay endpoint = true) s)
    (push : PushId) : Recounted codec endpoint request s push := by
  obtain ⟨chronicled, narrated⟩ := reached_narrated errors
    (reached.mono fun _ _ allowed => allowed.1)
  have unlogged : (machine codec endpoint request).ReachedBy
      (fun _ event => event.setsNoDelay endpoint = true) s.1 :=
    Machine.ReachedBy.unlogged (reached.mono fun _ _ allowed => allowed.2)
  refine ⟨narrated push, ⟨_, fun _ _ own executed =>
    bounded_of_reached unlogged.reached own executed⟩, ?_⟩
  intro rests
  have sessionRests := atRest_session unlogged rests
  obtain ⟨posts, operations⟩ := atRest_iff.mp sessionRests
  have settled :=
    settled_of_rest (reached_session unlogged.reached) sessionRests
  exact ⟨chronicled.ended posts operations, settled.pushes push⟩

theorem atRest_of_lost {s : State Byte Response} (flights : s.flights = [])
    (completing : s.completing = none) (posts : s.session.posts = [])
    {operation : Operation} (operations : s.session.operations = [operation])
    (notWait : ∀ waiter cancelled, operation ≠ .wait waiter cancelled) :
    (machine codec endpoint request).AtRest (Event.isOwn endpoint) s := by
  intro event own
  cases event with
  | push => cases own
  | start => cases own
  | stop graceful => cases own
  | post handler =>
      simp [machine, step, completing, dispatch, Session.step, posts]
  | timer waiter cancelled ec =>
      have other := notWait waiter cancelled
      simp [machine, step, completing, dispatch, Session.step, operations,
        Ne.symm other]
  | answer index answer => simp [machine, step, completing, flights]
  | complete => simp [machine, step, completing]

theorem Answered.lost {s t : State Byte Response} {index : Nat}
    {answer : Answer Byte} (answered : Answered codec endpoint s index answer t)
    (work : s.Work) (escapes : answered.next.2 = .escape) :
    t.flights = [] ∧ t.completing = none := by
  have entered := answered.entered
  refine ⟨?_, ?_⟩
  · have single : s.waiting.length ≤ 1 := by
      cases work with
      | idle flights => simp [State.waiting, flights]
      | waits flight flights => simp [State.waiting, flights]
      | ends completing flights => simp [State.waiting, flights]
    have taken := (State.waiting_perm answered.member).length_eq
    have left := congrArg List.length entered.waiting
    have none : State.entering answered.flight.operation answered.next =
        [] := by
      simp [State.entering, escapes]
    rw [none, List.append_nil] at left
    rw [List.length_cons] at taken
    simp only [State.waiting, List.length_map] at single taken left
    exact List.eq_nil_of_length_eq_zero (by omega)
  · rw [entered.completing]
    simp [State.completion, escapes]

/-- A connect of the queue that is lost leaves its request unfinished. -/
theorem not_recounted_of_throws (errors : ParserErrors codec)
    {s t : State Byte Response × List Note}
    (reached : (loggedMachine codec endpoint request).ReachedBy
      (fun _ event => event.PushOnly) s) {event : Event Byte}
    (stepped : (loggedMachine codec endpoint request).step s event = some t)
    (throws : event.setsNoDelay endpoint = false) :
    ∃ push, ¬Recounted codec endpoint request t push := by
  obtain ⟨chronicled, _⟩ := reached_narrated errors reached
  have unlogged : (machine codec endpoint request).ReachedBy
      (fun _ event => event.PushOnly) s.1 := Machine.ReachedBy.unlogged reached
  have linked := reached_linked unlogged.reached
  obtain ⟨⟨index, error, leavesOpen, rfl⟩, notSecure⟩ :=
    Event.setsNoDelay_eq_false.mp throws
  obtain ⟨underlying, log⟩ := Machine.logged_step stepped
  rcases step_cases underlying with ⟨_, _, same, ⟨answered⟩⟩ | ⟨_, other, _⟩
  · cases same
    have escapes :=
      (Call.resume_connected answered.resumed notSecure).2
    obtain ⟨flights, completing⟩ :=
      answered.lost (reached_calm errors unlogged).work escapes
    have session := answered.entered.session
    have waits : answered.flight.operation ∈ s.1.outstanding :=
      List.mem_append_left _ (List.mem_map_of_mem
        (List.mem_map_of_mem (List.mem_of_getElem? answered.member)))
    have member := linked.subperm.subset waits
    have notWait : ∀ waiter cancelled,
        answered.flight.operation ≠ .wait waiter cancelled :=
      fun waiter cancelled same =>
        linked.notWait waiter cancelled (same ▸ waits)
    have untold : t.2 = s.2 := by simpa [Event.notes, Event.label] using log
    cases chronicled.tells with
    | idle _ _ operations => simp [operations] at member
    | unrun _ _ operations => simp [operations] at member
    | retrying _ _ _ _ operations => simp [operations] at member
    | completed _ operations => simp [operations] at member
    | waiting _ task operation posts operations telling =>
        obtain rfl : answered.flight.operation = operation := by
          simpa [operations] using member
        refine ⟨task, fun recounted => telling.not_story ?_⟩
        have rests : (machine codec endpoint request).AtRest
            (Event.isOwn endpoint) t.1 :=
          atRest_of_lost flights completing (session ▸ posts)
            (session ▸ operations) notWait
        rw [← untold]
        refine (recounted.ends rests).1 ?_
        rw [session]
        exact chronicled.taken telling.ne_nil
  · cases other

/-- Without `async_start` and `async_stop` each request goes through a story to
its end, exactly as long as no step fails to set `TCP_NODELAY` where that
throws. -/
theorem reached_recounted (errors : ParserErrors codec)
    {s : State Byte Response × List Note}
    (reached : (loggedMachine codec endpoint request).ReachedBy
      (fun _ event => event.PushOnly ∧ event.setsNoDelay endpoint = true) s) :
    (∀ push, Recounted codec endpoint request s push) ∧
    ∀ event t, event.PushOnly →
      (loggedMachine codec endpoint request).step s event = some t →
      ((∀ push, Recounted codec endpoint request t push) ↔
        event.setsNoDelay endpoint = true) := by
  refine ⟨recounted_of_setsNoDelay errors reached, ?_⟩
  intro event t pushOnly stepped
  constructor
  · intro recounted
    by_contra throws
    obtain ⟨push, lost⟩ := not_recounted_of_throws errors
      (reached.mono fun _ _ allowed => allowed.1) stepped
      (by simpa using throws)
    exact lost (recounted push)
  · intro sets
    exact recounted_of_setsNoDelay errors
      (reached.step ⟨pushOnly, sets⟩ stepped)

/-- The exchange of a request fails on its connection and again on the one that
is made anew. -/
def interruptedTwiceRun : List (Event Char) :=
  [.push, .post .processTask, .answer 0 (.resolved none none true),
    .answer 0 (.connected none none true), .complete,
    .answer 0 (.ended (some .eof) false), .complete,
    .answer 0 (.ended none false), .complete,
    .post (.retry ⟨0, some .eof, .entry, false⟩),
    .answer 0 (.resolved none none true),
    .answer 0 (.connected none none true), .complete,
    .answer 0 (.ended (some .timedOut) false), .complete,
    .answer 0 (.ended none false), .complete]

theorem recounted_of_interruptedTwiceRun :
    ∃ s, (loggedMachine textCodec exampleEndpoint
          (fun _ => exampleRequest)).runWhere
        (fun _ event =>
          event.PushOnly ∧ event.setsNoDelay exampleEndpoint = true)
        ({}, []) interruptedTwiceRun = some s ∧
      told 0 s.2 = [.connect, .connected none, .exchange,
        .exchanged (some .eof), .close, .closed none, .connect,
        .connected none, .exchange, .exchanged (some .timedOut), .close,
        .closed none, .finished (some .timedOut)] ∧
      Recounted textCodec exampleEndpoint (fun _ => exampleRequest) s 0 := by
  have executed : ((loggedMachine textCodec exampleEndpoint
        (fun _ => exampleRequest)).runWhere
        (fun _ event =>
          event.PushOnly ∧ event.setsNoDelay exampleEndpoint = true)
        ({}, []) interruptedTwiceRun).map (fun s => told 0 s.2) =
      some [.connect, .connected none, .exchange, .exchanged (some .eof),
        .close, .closed none, .connect, .connected none, .exchange,
        .exchanged (some .timedOut), .close, .closed none,
        .finished (some .timedOut)] := by
    decide +kernel
  obtain ⟨s, run, deeds⟩ := Option.map_eq_some_iff.mp executed
  exact ⟨s, run, deeds, (reached_recounted textCodec_errors
    (Machine.reachedBy_of_runWhere interruptedTwiceRun run)).1 0⟩

/-- The connect for a request succeeds, and its socket is reset before the
handler runs. -/
def connectingRun : List (Event Char) :=
  [.push, .post .processTask, .answer 0 (.resolved none none true)]

def resetAnswer : Event Char :=
  .answer 0 (.connected none (some (.other 22)) true)

/-- On a tcp transport nothing can happen after that, and nobody was called. -/
theorem connectingRun_not_recounted :
    ¬∀ (endpoint : SessionEndpoint) (s : State Char TextResponse × List Note),
      (loggedMachine textCodec endpoint
        (fun _ => exampleRequest)).ReachedBy
          (fun _ event => event.PushOnly) s →
      ∀ push, Recounted textCodec endpoint (fun _ => exampleRequest) s push := by
  intro recounted
  have executed : (((loggedMachine textCodec exampleEndpoint
        (fun _ => exampleRequest)).runWhere (fun _ event => event.PushOnly)
        ({}, []) connectingRun).bind (fun s =>
          (loggedMachine textCodec exampleEndpoint
            (fun _ => exampleRequest)).step s resetAnswer)).isSome = true := by
    decide +kernel
  obtain ⟨t, executed⟩ := Option.isSome_iff_exists.mp executed
  obtain ⟨s, run, stepped⟩ := Option.bind_eq_some_iff.mp executed
  have reached := Machine.reachedBy_of_runWhere connectingRun run
  obtain ⟨push, lost⟩ :=
    not_recounted_of_throws textCodec_errors reached stepped rfl
  have pushOnly : resetAnswer.PushOnly := trivial
  exact lost (recounted exampleEndpoint t (reached.step pushOnly stepped) push)

end Connection

end Fetchpp

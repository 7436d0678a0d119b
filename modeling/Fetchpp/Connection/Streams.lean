import Fetchpp.Connection.Refinement
import Fetchpp.Session.Stopping
import Fetchpp.Transport.Sequence
import Fetchpp.Transport.Steps

/-!
# Operations and the stream they were started on

A basic transport makes a new stream when it connects after a close, a tunnel
when it closes.  Neither looks for operations that the old stream still has: a
start connects whatever goes on, and the operations that a close cancels end
only later.  The callers keep the streams apart when they do not start or stop
a session while operations are outstanding that may be left behind.
-/

namespace Fetchpp

namespace Connection

open Session Http

variable {Byte Response : Type} {codec : Codec Byte Response}
  {endpoint : SessionEndpoint} {request : PushId → Request}

/-- What is outstanding was started on the current stream. -/
def State.StreamsCurrent (s : State Byte Response) : Prop :=
  ∀ waiting ∈ s.waiting, waiting.stream = s.transport.stream

/-- On a basic transport a connect is started while the transport is running,
or while nothing is outstanding. -/
def Event.BasicApart (s : State Byte Response) : Event Byte → Prop
  | .start => s.transport.running = true ∨ s.waiting = []
  | .post handler => handler.takesTask s.session.core = true →
      s.transport.isOpen = false →
      s.transport.running = true ∨ s.waiting = []
  | _ => True

/-- The posted completion of a read ends the operation, which is not followed
by a close. -/
def Waiting.settles (codec : Codec Byte Response)
    (waiting : Waiting Byte Response) : Bool :=
  match waiting.point with
  | .proxying (.read (.error _)) => true
  | .proxying (.read (.ok response)) => codec.status response ≠ 200
  | .exchanging (.read (.ok _)) => true
  | _ => false

/-- The operation does not lead to a close: it is the connect of a start, or a
connect or an exchange of the queue that is about to end. -/
def Waiting.shares (codec : Codec Byte Response)
    (waiting : Waiting Byte Response) : Bool :=
  waiting.operation.isStartConnect || waiting.settles codec

/-- On a tunnel, whose stream is replaced by each close, a start finds only
operations that do not lead to one, a stop finds nothing, and a task is taken
up when no start is connecting. -/
def Event.TunnelApart (codec : Codec Byte Response) (s : State Byte Response) :
    Event Byte → Prop
  | .start => ∀ waiting ∈ s.waiting, waiting.shares codec = true
  | .stop _ => s.waiting = []
  | .post handler => handler.takesTask s.session.core = true →
      ∀ waiting ∈ s.waiting, waiting.operation.isStartConnect = false
  | _ => True

def Event.StreamApart (codec : Codec Byte Response)
    (endpoint : SessionEndpoint) (s : State Byte Response)
    (event : Event Byte) : Prop :=
  if endpoint.isTunnel then event.TunnelApart codec s else event.BasicApart s

instance (s : State Byte Response) :
    (event : Event Byte) → Decidable (event.BasicApart s)
  | .start => inferInstanceAs (Decidable (
      s.transport.running = true ∨ s.waiting = []))
  | .post handler => inferInstanceAs (Decidable (
      handler.takesTask s.session.core = true →
      s.transport.isOpen = false →
      s.transport.running = true ∨ s.waiting = []))
  | .push | .stop _ | .timer _ _ _ | .answer _ _ | .complete =>
      inferInstanceAs (Decidable True)

instance (s : State Byte Response) :
    (event : Event Byte) → Decidable (event.TunnelApart codec s)
  | .start => inferInstanceAs (Decidable (∀ waiting ∈ s.waiting,
      waiting.shares codec = true))
  | .stop _ => inferInstanceAs (Decidable (s.waiting = []))
  | .post handler => inferInstanceAs (Decidable (
      handler.takesTask s.session.core = true →
      ∀ waiting ∈ s.waiting, waiting.operation.isStartConnect = false))
  | .push | .timer _ _ _ | .answer _ _ | .complete =>
      inferInstanceAs (Decidable True)

instance (s : State Byte Response) (event : Event Byte) :
    Decidable (event.StreamApart codec endpoint s) :=
  inferInstanceAs (Decidable (if endpoint.isTunnel then
    event.TunnelApart codec s else event.BasicApart s))

namespace State

theorem StreamsCurrent.of_entered {s t : State Byte Response}
    {operation : Operation} {next : Step Byte Response}
    (entered : s.Entered operation next t)
    (others : ∀ waiting ∈ s.waiting, waiting.stream = next.1.stream) :
    t.StreamsCurrent := by
  intro waiting member
  rw [entered.transport]
  rcases entered.waits member with earlier | ⟨_, _, rfl⟩
  · exact others waiting earlier
  · rfl

end State

@[simp] theorem State.handled_stream (cancelTimer : Bool)
    (s : State Byte Response) :
    (s.handled cancelTimer).transport.stream = s.transport.stream := by
  unfold State.handled
  split <;> rfl

/-- A connect of a basic transport that replaces its stream finds nothing
outstanding. -/
theorem Event.BasicApart.connects {s : State Byte Response}
    {event : Event Byte} (apart : event.BasicApart s)
    {event' : Session.Event} (label : event.label s = some event')
    {caller : Connector}
    (starts : event'.Starts s.session.core (.connect caller))
    (stopped : s.transport.running = false) : s.waiting = [] := by
  cases starts with
  | elsewhere isLocal => cases isLocal
  | start =>
      obtain rfl := Event.label_start label
      rcases apart with running | free
      · simp [stopped] at running
      · exact free
  | connect takes =>
      obtain ⟨rfl, isOpen⟩ := Event.label_post label
      rcases apart takes isOpen.symm with running | free
      · simp [stopped] at running
      · exact free

theorem State.StreamsCurrent.basic_step {s t : State Byte Response}
    {event : Event Byte} (current : s.StreamsCurrent)
    (points : s.session.AtPoints) (basic : endpoint.isTunnel = false)
    (apart : event.BasicApart s)
    (stepped : step codec endpoint request s event = some t) :
    t.StreamsCurrent := by
  rcases step_cases stepped with ⟨index, answer, rfl, ⟨answered⟩⟩ |
    ⟨event', label, ⟨handled⟩⟩
  · have kept : answered.next.1.stream = s.transport.stream := by
      rcases Point.resume_cases answered.resumed with ⟨_, keeps⟩ | ⟨_, closes⟩
      · exact keeps.stream
      · exact closes.basic basic
    refine .of_entered answered.entered ?_
    intro waiting member
    rw [kept]
    exact current waiting (((List.eraseIdx_sublist _ _).map _).subset member)
  · rcases handled.cases points with quiet |
      ⟨effect, operation, next, starts, _, begun, launched⟩
    · intro waiting member
      rw [quiet, State.handled_waiting] at member
      rw [quiet, State.handled_stream]
      exact current waiting member
    · have entered : (s.resumed handled.session).Entered operation next
          ((s.resumed handled.session).launch endpoint request effect) :=
        State.launch_entered begun
      have others : ∀ waiting ∈ s.waiting,
          waiting.stream = next.1.stream := by
        intro waiting member
        have here := current waiting member
        cases effect with
        | post handler => cases begun
        | wait stop => cases begun
        | cancelTimer => cases begun
        | connect caller =>
            cases begun
            rcases connect_keeps endpoint s.transport with keeps |
              ⟨_, stopped, _⟩
            · rw [here, keeps.stream]
            · have nothing := apart.connects label starts stopped
              simp [nothing] at member
        | exchange op =>
            cases begun
            have keeps : (processOne (request op.task) s.transport :
                Step Byte Response).Keeps .exchange s.transport :=
              .processOne _ _
            rw [here, keeps.stream]
        | close graceful caller =>
            cases begun
            rcases close_cases endpoint graceful s.transport with
              ⟨_, ends⟩ | ⟨_, point, _, _, _, ends⟩ | ⟨_, _, ends⟩
            · rw [here, ends]
              rfl
            · rw [here, ends]
              rfl
            · rw [here, ends, (closed_closes endpoint none rfl).basic basic]
              rfl
      have after : (State.launch endpoint request (s.resumed handled.session)
          effect).StreamsCurrent := .of_entered entered others
      intro waiting member
      rw [launched, State.handled_waiting] at member
      rw [launched, State.handled_stream]
      exact after waiting member

def operationKind : Operation → Option Kind
  | .connect _ => some .connect
  | .exchange _ => some .exchange
  | .close _ _ => some .close
  | .wait _ _ => none

def Waiting.Fits (waiting : Waiting Byte Response) : Prop :=
  operationKind waiting.operation = some waiting.point.kind

/-- The handler of the operation may use the transport. -/
def Completing.goesOn (completing : Completing) : Bool :=
  match completing.operation, completing.ec with
  | .connect (.queue _), none => true
  | .exchange _, some error => error ≠ .operationAborted
  | _, _ => false

theorem Completing.not_goesOn_of_start {completing : Completing}
    (isStart : completing.operation.isStartConnect = true) :
    completing.goesOn = false := by
  obtain ⟨operation, ec, thenCancelTimer⟩ := completing
  cases operation with
  | connect caller =>
      cases caller with
      | start handler => rfl
      | queue op => cases isStart
  | exchange op => cases isStart
  | close graceful caller => cases isStart
  | wait waiter cancelled => cases isStart

theorem Completing.not_goesOn_of_failed {operation : Operation}
    {error : ErrorCode} {flag : Bool}
    (connects : operationKind operation = some .connect) :
    (Completing.mk operation (some error) flag).goesOn = false := by
  cases operation with
  | connect caller => cases caller <;> rfl
  | exchange op => cases connects
  | close graceful caller => cases connects
  | wait waiter cancelled => cases connects

/-- A step that ends its operation, which does not go on. -/
def LastStep (operation : Operation) (next : Step Byte Response) : Prop :=
  (∀ point, next.2 ≠ .await point) ∧
    ∀ completing, State.completion operation next = some completing →
      completing.goesOn = false

theorem lastStep_tunnelProxied {operation : Operation}
    (connects : operationKind operation = some .connect)
    {result : Except ErrorCode Response} {stream : Nat}
    (settles : Waiting.settles codec
      ⟨operation, .proxying (.read result), stream⟩ = true)
    (t : Transport Byte) :
    LastStep operation (tunnelProxied codec (.ofExcept result) t) := by
  cases result with
  | error error =>
      constructor
      · intro point awaits
        cases awaits
      · intro completing ends
        cases ends
        exact Completing.not_goesOn_of_failed connects
  | ok response =>
      have refused : codec.status response ≠ 200 := by
        simpa [Waiting.settles] using settles
      simp only [IoResult.ofExcept, tunnelProxied, refused, ne_eq,
        not_false_eq_true, if_true]
      constructor
      · intro point awaits
        cases awaits
      · intro completing ends
        cases ends
        exact Completing.not_goesOn_of_failed connects

theorem lastStep_processOneResume (op : QueueOp) (response : Response)
    (t : Transport Byte) :
    LastStep (.exchange op)
      (processOneResume codec (.ofExcept (.ok response)) t) := by
  simp only [IoResult.ofExcept, processOneResume]
  split
  · constructor
    · intro point awaits
      cases awaits
    · intro completing ends
      cases ends
      rfl
  · constructor
    · intro point awaits
      cases awaits
    · intro completing ends
      cases ends
      rfl

theorem Waiting.Fits.lastStep {waiting : Waiting Byte Response}
    (fits : waiting.Fits) (settled : waiting.settles codec = true)
    {tunnel : TunnelEndpoint} {stream : Nat} {t : Transport Byte}
    {answer : Answer Byte} {next : Step Byte Response}
    (resumed : waiting.point.resume codec (.tunnel tunnel) stream t answer =
      some next) : LastStep waiting.operation next := by
  obtain ⟨operation, point, started⟩ := waiting
  have posted : ∀ {result : Except ErrorCode Response} {buffer rest : List Byte}
      {after : IoResult Byte Response},
      (IoPoint.read result).resume codec buffer answer = some (rest, after) →
      after = .ofExcept result := by
    intro result buffer rest after io
    cases IoPoint.resume_resumed io
    rfl
  cases point with
  | proxying io =>
      cases io with
      | writing request => cases settled
      | reading skip parsed => cases settled
      | read result =>
          unfold Point.resume at resumed
          dsimp only at resumed
          split at resumed
          case h_1 io =>
            cases resumed
            rw [posted io]
            exact lastStep_tunnelProxied fits settled _
          case h_2 => cases resumed
  | exchanging io =>
      cases operation with
      | exchange op =>
          cases io with
          | writing request => cases settled
          | reading skip parsed => cases settled
          | read result =>
              cases result with
              | error error => cases settled
              | ok response =>
                  unfold Point.resume at resumed
                  dsimp only at resumed
                  split at resumed
                  case h_1 io =>
                    cases resumed
                    rw [posted io]
                    exact lastStep_processOneResume op response _
                  case h_2 => cases resumed
      | connect caller => cases fits
      | close graceful caller => cases fits
      | wait waiter cancelled => cases fits
  | resolving domain service => cases settled
  | connecting => cases settled
  | handshaking => cases settled
  | closePosted => cases settled
  | tcpClosing => cases settled
  | shuttingDown => cases settled

theorem Waiting.Fits.shares {waiting : Waiting Byte Response}
    (fits : waiting.Fits) (shared : waiting.shares codec = true)
    {tunnel : TunnelEndpoint} {stream : Nat} {t : Transport Byte}
    {answer : Answer Byte} {next : Step Byte Response}
    (resumed : waiting.point.resume codec (.tunnel tunnel) stream t answer =
      some next) :
    (∀ point started, next.2 = .await point →
      Waiting.shares codec ⟨waiting.operation, point, started⟩ = true) ∧
    ∀ completing, State.completion waiting.operation next = some completing →
      completing.goesOn = false := by
  rcases Bool.or_eq_true_iff.mp shared with isStart | settled
  · refine ⟨fun point started _ => by simp [Waiting.shares, isStart], ?_⟩
    intro completing completion
    apply Completing.not_goesOn_of_start
    rw [State.completion_operation completion]
    exact isStart
  · obtain ⟨ends, stops⟩ := fits.lastStep settled resumed
    exact ⟨fun point _ awaits => (ends point awaits).elim, stops⟩

theorem Waiting.not_shares_of_close {waiting : Waiting Byte Response}
    (fits : waiting.Fits) (closes : waiting.point.kind = .close) :
    waiting.shares codec = false := by
  obtain ⟨operation, point, started⟩ := waiting
  rw [Waiting.Fits, closes] at fits
  have notStart : operation.isStartConnect = false := by
    cases operation with
    | connect caller => cases fits
    | exchange op => rfl
    | close graceful caller => rfl
    | wait waiter cancelled => rfl
  cases point with
  | closePosted => simp [Waiting.shares, notStart, Waiting.settles]
  | tcpClosing => simp [Waiting.shares, notStart, Waiting.settles]
  | shuttingDown => simp [Waiting.shares, notStart, Waiting.settles]
  | resolving domain service => cases closes
  | connecting => cases closes
  | proxying io => cases closes
  | handshaking => cases closes
  | exchanging io => cases closes

/-- The invariant of a tunnel: an operation that may lead to a close has it to
itself. -/
structure State.Apart (codec : Codec Byte Response) (s : State Byte Response) :
    Prop where
  fits : ∀ waiting ∈ s.waiting, waiting.Fits
  current : s.StreamsCurrent
  shared : s.waiting.length ≤ 1 ∨
    ∀ waiting ∈ s.waiting, waiting.shares codec = true
  stopped : ∀ graceful handler,
    .close graceful (.stop handler) ∈ s.outstanding →
    s.session.core.running = false
  alone : ∀ completing, s.completing = some completing →
    completing.goesOn = true → s.waiting = []

namespace State.Apart

theorem of_entered {s t : State Byte Response} {operation : Operation}
    {kind : Kind} {next : Step Byte Response}
    (entered : s.Entered operation next t) (idle : s.completing = none)
    (fits : ∀ waiting ∈ s.waiting, waiting.Fits)
    (operationFits : operationKind operation = some kind)
    (stays : next.2.StaysIn kind)
    (current : ∀ waiting ∈ s.waiting, waiting.stream = next.1.stream)
    (shared : s.waiting = [] ∨
      (∀ waiting ∈ s.waiting, waiting.shares codec = true) ∧
      ∀ point started, next.2 = .await point →
        Waiting.shares codec ⟨operation, point, started⟩ = true)
    (stopped : ∀ graceful handler, .close graceful (.stop handler) ∈
      operation :: s.waiting.map Waiting.operation →
      s.session.core.running = false)
    (alone : ∀ completing, completion operation next = some completing →
      completing.goesOn = true → s.waiting = []) :
    t.Apart codec := by
  refine
    { fits := ?_
      current := .of_entered entered current
      shared := ?_
      stopped := ?_
      alone := ?_ }
  · intro waiting member
    rcases entered.waits member with earlier | ⟨point, yields, rfl⟩
    · exact fits waiting earlier
    · rw [yields] at stays
      exact operationFits.trans (congrArg some stays.symm)
  · rw [entered.waiting]
    rcases shared with nothing | ⟨others, new⟩
    · left
      rw [nothing, List.nil_append]
      unfold entering
      split <;> simp
    · right
      intro waiting member
      rcases List.mem_append.mp member with earlier | entering
      · exact others waiting earlier
      · obtain ⟨point, yields, rfl⟩ := mem_entering entering
        exact new point _ yields
  · intro graceful handler member
    rw [entered.session]
    apply stopped graceful handler
    have before : s.outstanding = s.waiting.map Waiting.operation := by
      simp [State.outstanding, idle]
    rcases entered.outstanding idle with same | added
    · rw [same, before] at member
      exact List.mem_cons_of_mem _ member
    · rw [added, before] at member
      rcases List.mem_append.mp member with earlier | new
      · exact List.mem_cons_of_mem _ earlier
      · rw [List.mem_singleton.mp new]
        exact List.mem_cons_self
  · intro completing some goesOn
    rw [entered.completing, idle, Option.or_none] at some
    have nothing : entering operation next = [] := by
      obtain ⟨transport, yield⟩ := next
      cases yield <;> first | rfl | cases some
    rw [entered.waiting, nothing, List.append_nil]
    exact alone completing some goesOn

theorem others {s : State Byte Response} (apart : s.Apart codec)
    {index : Nat} {flight : Flight Byte Response}
    (member : s.flights[index]? = some flight) :
    (s.flights.eraseIdx index).map Flight.toWaiting = [] ∨
      flight.toWaiting.shares codec = true ∧
      ∀ waiting ∈ (s.flights.eraseIdx index).map Flight.toWaiting,
        waiting.shares codec = true := by
  have perm := State.waiting_perm member
  rcases apart.shared with single | shared
  · left
    have counted := perm.length_eq
    rw [List.length_cons] at counted
    exact List.eq_nil_of_length_eq_zero (by omega)
  · right
    exact ⟨shared _ (perm.symm.subset List.mem_cons_self),
      fun waiting rest => shared waiting
        (perm.symm.subset (List.mem_cons_of_mem _ rest))⟩

theorem answered {s t : State Byte Response} (apart : s.Apart codec)
    {tunnel : TunnelEndpoint} {index : Nat} {answer : Answer Byte}
    (answered : Answered codec (.tunnel tunnel) s index answer t) :
    t.Apart codec := by
  have perm := State.waiting_perm answered.member
  have others := apart.others answered.member
  have within : ∀ waiting ∈
      (s.flights.eraseIdx index).map Flight.toWaiting, waiting ∈ s.waiting :=
    fun waiting member => perm.symm.subset (List.mem_cons_of_mem _ member)
  have fits : answered.flight.toWaiting.Fits :=
    apart.fits _ (perm.symm.subset List.mem_cons_self)
  have stopped : ∀ graceful handler, .close graceful (.stop handler) ∈
      answered.flight.operation ::
        ((s.flights.eraseIdx index).map Flight.toWaiting).map
          Waiting.operation → s.session.core.running = false :=
    fun graceful handler member => apart.stopped graceful handler
      (List.mem_append_left _
        ((perm.map Waiting.operation).symm.subset member))
  rcases Point.resume_cases answered.resumed with ⟨_, keeps⟩ | ⟨closes, ends⟩
  · refine .of_entered answered.entered rfl
      (fun waiting member => apart.fits waiting (within waiting member))
      fits keeps.stays ?_ ?_ stopped ?_
    · intro waiting member
      rw [keeps.stream]
      exact apart.current waiting (within waiting member)
    · refine others.imp_right ?_
      rintro ⟨shares, rest⟩
      exact ⟨rest, (fits.shares shares answered.resumed).1⟩
    · intro completing completion goesOn
      rcases others with nothing | ⟨shares, _⟩
      · exact nothing
      · have stops := (fits.shares shares answered.resumed).2
        simp [stops completing completion] at goesOn
  · -- a close has the tunnel to itself, so that nothing loses its stream
    have nothing : (s.flights.eraseIdx index).map Flight.toWaiting = [] := by
      refine others.resolve_right ?_
      rintro ⟨shares, _⟩
      simp [Waiting.not_shares_of_close fits closes] at shares
    obtain ⟨ec, completes⟩ := ends.completes
    refine .of_entered answered.entered rfl
      (fun waiting member => apart.fits waiting (within waiting member))
      (fits.trans (congrArg some closes)) ?_ ?_ (.inl nothing) stopped
      (fun _ _ _ => nothing)
    · rw [completes]
      trivial
    · intro waiting member
      have none : waiting ∈ ([] : List (Waiting Byte Response)) :=
        nothing ▸ member
      cases none

private theorem stopped_after {s : State Byte Response} (apart : s.Apart codec)
    {event : Event Byte} (safe : event.TunnelApart codec s)
    {event' : Session.Event} (label : event.label s = some event')
    {session : Session.State}
    (stepped : Session.step s.session event' = some session)
    {graceful : GracefulShutdown} {handler : Nat}
    (member : .close graceful (.stop handler) ∈
      s.waiting.map Waiting.operation) : session.core.running = false := by
  have stopped :=
    apart.stopped graceful handler (List.mem_append_left _ member)
  refine Session.State.step_stopped stepped ?_ stopped
  rintro rfl
  obtain rfl := Event.label_start label
  obtain ⟨waiting, inWaiting, operation⟩ := List.mem_map.mp member
  have shares := safe waiting inWaiting
  have fits := apart.fits waiting inWaiting
  have closes : waiting.point.kind = .close := by
    rw [Waiting.Fits, operation] at fits
    exact (Option.some.inj fits).symm
  simp [Waiting.not_shares_of_close fits closes] at shares

private theorem nothing_of_takes {s : State Byte Response}
    (apart : s.Apart codec) (linked : s.Linked)
    (invariant : s.session.Invariant) {handler : Posted}
    (safe : (Event.post handler : Event Byte).TunnelApart codec s)
    (posted : handler ∈ s.session.posts)
    (takes : handler.takesTask s.session.core = true) : s.waiting = [] := by
  apply List.eq_nil_iff_forall_not_mem.mpr
  intro waiting member
  have running := Posted.running_of_takes takes
  have outstanding : waiting.operation ∈ s.outstanding :=
    List.mem_append_left _ (List.mem_map_of_mem member)
  have notQueue := linked.queueOps_nil invariant posted outstanding
  have notStart := safe takes waiting member
  have fits := apart.fits waiting member
  obtain ⟨operation, point, stream⟩ := waiting
  dsimp only at outstanding notQueue
  cases operation with
  | exchange op => cases notQueue
  | wait waiter cancelled => cases fits
  | close graceful caller =>
      cases caller with
      | queue op => cases notQueue
      | stop stop =>
          have stopped := apart.stopped graceful stop outstanding
          simp [stopped] at running
  | connect caller =>
      cases caller with
      | queue op => cases notQueue
      | start start => cases notStart

private theorem end_handler {s : State Byte Response} (apart : s.Apart codec)
    (cancelTimer : Bool) : (s.handled cancelTimer).Apart codec where
  fits := by simpa using apart.fits
  current := by simpa [State.StreamsCurrent] using apart.current
  shared := by simpa using apart.shared
  stopped := by simpa using apart.stopped
  alone := by simpa using apart.alone

theorem enter_connect {s t : State Byte Response} (apart : s.Apart codec)
    (idle : s.completing = none) {tunnel : TunnelEndpoint}
    {caller : Connector}
    (entered : s.Entered (.connect caller)
      (connect (.tunnel tunnel) s.transport) t)
    (shared : s.waiting = [] ∨
      (∀ waiting ∈ s.waiting, waiting.shares codec = true) ∧
      (Operation.connect caller).isStartConnect = true) : t.Apart codec := by
  refine of_entered entered idle apart.fits (@rfl _ (some Kind.connect)) rfl
    apart.current (shared.imp_right ?_) ?_ ?_
  · rintro ⟨others, isStart⟩
    exact ⟨others, fun point started _ => by simp [Waiting.shares, isStart]⟩
  · intro graceful handler member
    rcases List.mem_cons.mp member with other | earlier
    · cases other
    · exact apart.stopped graceful handler (List.mem_append_left _ earlier)
  · rintro completing ⟨⟩

theorem enter_exchange {s t : State Byte Response} (apart : s.Apart codec)
    (idle : s.completing = none) {op : QueueOp} {request : Request}
    (entered : s.Entered (.exchange op) (processOne request s.transport) t)
    (nothing : s.waiting = []) : t.Apart codec := by
  have keeps : (processOne request s.transport :
      Step Byte Response).Keeps .exchange s.transport := .processOne _ _
  refine of_entered entered idle apart.fits (@rfl _ (some Kind.exchange))
    keeps.stays ?_ (.inl nothing) ?_ (fun _ _ _ => nothing)
  · intro waiting member
    rw [keeps.stream]
    exact apart.current waiting member
  · intro graceful handler member
    rcases List.mem_cons.mp member with other | earlier
    · cases other
    · exact apart.stopped graceful handler (List.mem_append_left _ earlier)

theorem enter_close {s t : State Byte Response} (apart : s.Apart codec)
    (idle : s.completing = none) {tunnel : TunnelEndpoint}
    {graceful : GracefulShutdown} {caller : Closer}
    (entered : s.Entered (.close graceful caller)
      (close (.tunnel tunnel) graceful s.transport) t)
    (nothing : s.waiting = [])
    (stopped : ∀ stop, caller = .stop stop →
      s.session.core.running = false) : t.Apart codec := by
  have stays : (close (.tunnel tunnel) graceful s.transport :
      Step Byte Response).2.StaysIn .close := by
    rcases close_cases (.tunnel tunnel) graceful s.transport with
      ⟨_, ends⟩ | ⟨_, point, kind, _, _, ends⟩ | ⟨_, _, ends⟩
    · rw [ends]
      rfl
    · rw [ends]
      exact kind
    · obtain ⟨ec, completes⟩ := (@closed_closes _ Response (.tunnel tunnel)
        none s.transport (s.transport.setRunning false).setupTimer
          rfl).completes
      rw [ends, completes]
      trivial
  refine of_entered entered idle apart.fits (@rfl _ (some Kind.close)) stays
    ?_ (.inl nothing) ?_ (fun _ _ _ => nothing)
  · simp [nothing]
  · intro graceful' handler member
    rcases List.mem_cons.mp member with new | earlier
    · cases new
      exact stopped handler rfl
    · exact apart.stopped graceful' handler (List.mem_append_left _ earlier)

theorem resumed {s : State Byte Response} (apart : s.Apart codec)
    {session : Session.State}
    (stopped : ∀ graceful handler, .close graceful (.stop handler) ∈
      s.waiting.map Waiting.operation → session.core.running = false) :
    (s.resumed session).Apart codec where
  fits := apart.fits
  current := apart.current
  shared := apart.shared
  stopped := by
    intro graceful handler member
    rw [State.outstanding_resumed] at member
    exact stopped graceful handler member
  alone := by
    intro completing some
    cases some

theorem handled {s t : State Byte Response} (apart : s.Apart codec)
    (linked : s.Linked) (reached : Session.machine.Reached s.session)
    {tunnel : TunnelEndpoint} {event : Event Byte}
    (safe : event.TunnelApart codec s) {event' : Session.Event}
    (label : event.label s = some event')
    (handled : Handled (.tunnel tunnel) request s event' t) :
    t.Apart codec := by
  have invariant := reached_invariant reached
  have before : (s.resumed handled.session).Apart codec :=
    apart.resumed (fun _ _ member =>
      apart.stopped_after safe label handled.stepped member)
  rcases handled.cases (reached_atPoints reached) with quiet |
    ⟨effect, operation, next, starts, _, begun, launched⟩
  · rw [quiet]
    exact before.end_handler _
  rw [launched]
  apply end_handler
  have entered : (s.resumed handled.session).Entered operation next
      ((s.resumed handled.session).launch (.tunnel tunnel) request effect) :=
    State.launch_entered begun
  have enabled := (step_eq handled.stepped).1
  cases starts with
  | elsewhere isLocal => cases effect <;> cases isLocal <;> cases begun
  | start =>
      obtain rfl := Event.label_start label
      cases begun
      exact before.enter_connect rfl entered (.inr ⟨safe, rfl⟩)
  | stop graceful =>
      obtain rfl := Event.label_stop label
      cases begun
      exact before.enter_close rfl entered safe (fun _ _ => handled.stopped)
  | connect takes =>
      obtain ⟨rfl, isOpen⟩ := Event.label_post label
      cases begun
      exact before.enter_connect rfl entered
        (.inl (apart.nothing_of_takes linked invariant safe enabled takes))
  | reuse takes =>
      obtain ⟨rfl, isOpen⟩ := Event.label_post label
      cases begun
      exact before.enter_exchange rfl entered
        (apart.nothing_of_takes linked invariant safe enabled takes)
  | connected running task =>
      cases begun
      obtain ⟨completing, some, operation, ec⟩ :=
        handled.completes rfl nofun
      refine before.enter_exchange rfl entered ?_
      refine apart.alone completing some ?_
      simp [Completing.goesOn, operation, ec]
  | failed running task notAborted =>
      cases begun
      obtain ⟨completing, some, operation, ec⟩ :=
        handled.completes rfl nofun
      refine before.enter_close rfl entered ?_ nofun
      refine apart.alone completing some ?_
      simp [Completing.goesOn, operation, ec, notAborted]

end State.Apart

/-- On every transport an operation keeps the stream it was started on, as long
as sessions are started and stopped, and tasks taken up, apart from the
operations that are outstanding. -/
theorem reached_streamsCurrent {s : State Byte Response}
    (reached : (machine codec endpoint request).ReachedBy
      (fun before event => event.StreamApart codec endpoint before) s) :
    s.StreamsCurrent := by
  cases tunnel : endpoint.isTunnel with
  | false =>
      refine reached.invariant ?_ ?_
      · intro waiting member
        cases member
      · intro before event after earlier current allowed stepped
        rw [Event.StreamApart, tunnel] at allowed
        exact current.basic_step
          (reached_atPoints (reached_session earlier.reached)) tunnel allowed
          stepped
  | true =>
      cases endpoint with
      | plain endpoint => cases tunnel
      | secure endpoint => cases tunnel
      | tunnel endpoint =>
          have apart : s.Apart codec := by
            refine reached.invariant ?_ ?_
            · constructor <;> simp [machine, State.waiting, State.outstanding,
                State.StreamsCurrent]
            · intro before event after earlier apart allowed stepped
              have reachedSession := reached_session earlier.reached
              have linked := reached_linked earlier.reached
              rcases step_cases stepped with ⟨_, _, _, ⟨answered⟩⟩ |
                ⟨_, label, ⟨handled⟩⟩
              · exact apart.answered answered
              · exact apart.handled linked reachedSession allowed label handled
          exact apart.current

/-- A tunnel is closed and made anew: the exchange of a request fails, the
retry connects on the new stream. -/
def renewedRun : List (Event Char) :=
  [.push, .post .processTask, .answer 0 (.resolved none none true),
    .answer 0 (.connected none none true), .answer 0 (.ended none false),
    .answer 0 (.chunk "HTTP/1.1 200 OK\r\n\r\n".toList),
    .answer 0 (.ended none false), .complete,
    .answer 0 (.ended (some .eof) true), .complete,
    .answer 0 (.ended none false), .complete,
    .post (.retry ⟨0, some .eof, .entry, false⟩),
    .answer 0 (.resolved none none true)]

theorem streamsCurrent_of_renewedRun :
    ∃ s, (machine textCodec (.tunnel exampleTunnel)
        (fun _ => exampleRequest)).runWhere
        (fun before event =>
          event.StreamApart textCodec (.tunnel exampleTunnel) before) {}
        renewedRun = some s ∧
      s.transport.stream = 1 ∧ s.waiting.map Waiting.stream = [1] ∧
      s.StreamsCurrent := by
  have executed : ((machine textCodec (.tunnel exampleTunnel)
      (fun _ => exampleRequest)).runWhere
      (fun before event =>
        event.StreamApart textCodec (.tunnel exampleTunnel) before) {}
      renewedRun).map
      (fun s => (s.transport.stream, s.waiting.map Waiting.stream)) =
        some (1, [1]) := by
    decide +kernel
  obtain ⟨s, run, streams⟩ := Option.map_eq_some_iff.mp executed
  simp only [Prod.mk.injEq] at streams
  exact ⟨s, run, streams.1, streams.2,
    reached_streamsCurrent (Lib.Machine.reachedBy_of_runWhere renewedRun run)⟩

/-- A stop that is not graceful replaces the stream of a tunnel on which a
connect is waiting. -/
def abandonedRun : List (Event Char) :=
  [.push, .post .processTask, .answer 0 (.resolved none none true), .stop .no]

theorem abandonedRun_not_streamsCurrent :
    ¬∀ (endpoint : SessionEndpoint) (s : State Char TextResponse),
      (machine textCodec endpoint (fun _ => exampleRequest)).Reached s →
      s.StreamsCurrent := by
  intro current
  have onStream := current (.tunnel exampleTunnel) _
    (Lib.Machine.reached_of_run abandonedRun rfl)
    ⟨.connect (.queue ⟨0, none, .connected, true⟩), .connecting, 0⟩
    (List.mem_singleton_self _)
  cases onStream

end Connection

end Fetchpp

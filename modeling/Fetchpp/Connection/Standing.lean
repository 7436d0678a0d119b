import Fetchpp.Connection.Streams

/-!
# The connect an exchange relies on

`process_queue_op` takes an open socket for a connection.  A connect opens the
socket long before it has succeeded, and a start whose connect fails leaves the
session running, with whatever the connect has left of the socket.  What the
exchanges rely on is told by a log of the transport's operations.
-/

namespace Fetchpp

namespace Connection

open Session Http Lib

variable {Byte Response : Type}

/-- What can be said of the latest connect. -/
inductive Standing where
  /-- there was none, it has failed, or a close was started since -/
  | unready
  | connecting (caller : Connector)
  /-- it has succeeded, and its last operation was one on `stream` -/
  | ready (stream : Nat)
  deriving DecidableEq, Repr

namespace Standing

/-- What happens to the operations of the transport. -/
inductive Note where
  | connects (caller : Connector)
  | connected (caller : Connector) (ec : Option ErrorCode) (stream : Nat)
  | closes
  /-- an exchange is started while `stream` is the current one -/
  | exchanges (stream : Nat)
  deriving DecidableEq, Repr

def after (standing : Standing) : Note → Standing
  | .connects caller => .connecting caller
  | .connected caller ec stream =>
      if standing = .connecting caller then
        match ec with
        | none => .ready stream
        | some _ => .unready
      else standing
  | .closes => .unready
  | .exchanges _ => standing

def ofLog (log : List Note) : Standing :=
  log.foldl after .unready

/-- Each exchange is started on the stream on which the latest connect has
succeeded, with no close started since. -/
def Served (log : List Note) : Prop :=
  ∀ before stream later, log = before ++ .exchanges stream :: later →
    ofLog before = .ready stream

def Note.ofEffect (stream : Nat) : Effect → List Note
  | .connect caller => [.connects caller]
  | .exchange _ => [.exchanges stream]
  | .close _ _ => [.closes]
  | _ => []

/-- The completion of a connect whose last operation was one on `stream`. -/
def completion (operation : Operation) (stream : Nat) :
    Yield Byte Response → List Note
  | .complete ec | .completeFirst ec =>
      match operation with
      | .connect caller => [.connected caller ec stream]
      | _ => []
  | _ => []

variable (codec : Codec Byte Response) (endpoint : SessionEndpoint)
  (request : PushId → Request)

def notes (s : State Byte Response) (event : Event Byte) : List Note :=
  match event.label s, event with
  | some label, _ =>
      (label.outcome s.session.core).2.flatMap
        (Note.ofEffect s.transport.stream)
  | none, .answer index answer =>
      match s.flights[index]? with
      | none => []
      | some flight =>
          match flight.point.resume codec endpoint flight.stream s.transport
              answer with
          | none => []
          | some next => completion flight.operation flight.stream next.2
  | none, _ => []

abbrev machine :
    Machine (State Byte Response × List Note) (Event Byte) :=
  (Connection.machine codec endpoint request).logged (notes codec endpoint)

end Standing

/-- The caller waits for each start. -/
def Event.AwaitsStart (s : State Byte Response) : Event Byte → Prop
  | .push | .start | .stop _ => ∀ operation ∈ s.session.operations,
      operation.isStartConnect = false
  | _ => True

/-- A connect whose failure leaves the session running leaves no open
socket. -/
def Completing.Leaves (s : State Byte Response) (completing : Completing) :
    Prop :=
  match completing.operation, completing.ec with
  | .connect caller, some error =>
      s.session.core.running = true →
      (Operation.connect caller).isStartConnect = true ∨
        error = .operationAborted →
      s.transport.isOpen = false
  | _, _ => True

/-- A connect of the queue that waits for its handshake. -/
def Flight.queueShakes (flight : Flight Byte Response) : Bool :=
  match flight.point, flight.operation with
  | .handshaking, .connect (.queue _) => true
  | _, _ => false

def endsWell : Answer Byte → Bool
  | .ended none _ => true
  | _ => false

/-- A connect of the queue that succeeds finds the stream its handshake was
started on. -/
def Flight.Steady (s : State Byte Response) (flight : Flight Byte Response)
    (answer : Answer Byte) : Prop :=
  flight.queueShakes = true → endsWell answer = true →
    s.session.core.running = true → flight.stream = s.transport.stream

/-- Starts and the queue keep out of each other's way, and nothing but a
connect that has succeeded is left to the next task. -/
def Event.Settles (s : State Byte Response) (event : Event Byte) : Prop :=
  (∀ label ∈ event.label s, label.NoOverlap s.session) ∧
  match event with
  | .complete => ∀ completing ∈ s.completing, completing.Leaves s
  | .answer index result => ∀ flight ∈ s.flights[index]?,
      flight.Steady s result
  | _ => True

instance (s : State Byte Response) :
    (event : Event Byte) → Decidable (event.AwaitsStart s)
  | .push | .start | .stop _ => inferInstanceAs (Decidable
      (∀ operation ∈ s.session.operations, operation.isStartConnect = false))
  | .post _ | .timer _ _ _ | .answer _ _ | .complete =>
      inferInstanceAs (Decidable True)

instance (s : State Byte Response) (completing : Completing) :
    Decidable (completing.Leaves s) := by
  unfold Completing.Leaves
  split <;> infer_instance

instance (s : State Byte Response) (flight : Flight Byte Response)
    (answer : Answer Byte) : Decidable (flight.Steady s answer) := by
  unfold Flight.Steady
  infer_instance

instance (s : State Byte Response) (event : Event Byte) :
    Decidable (event.Settles s) := by
  unfold Event.Settles
  have second : Decidable (match event with
      | .complete => ∀ completing ∈ s.completing, completing.Leaves s
      | .answer index result => ∀ flight ∈ s.flights[index]?,
          flight.Steady s result
      | _ => True) := by
    split <;> infer_instance
  infer_instance

theorem connect_mem_apply {s : Session.State} {caller : Connector}
    (member : .connect caller ∈ s.operations) (outcome : Outcome) :
    .connect caller ∈ (s.apply outcome).operations := by
  have performed : ∀ (t : Session.State) (effect : Effect),
      .connect caller ∈ t.operations →
      .connect caller ∈ (t.perform effect).operations := by
    intro t effect member
    have cancelled : .connect caller ∈
        t.operations.map Operation.cancelWait :=
      List.mem_map.mpr ⟨_, member, rfl⟩
    cases effect with
    | post handler => exact member
    | connect other => exact List.mem_append_left _ member
    | exchange op => exact List.mem_append_left _ member
    | close graceful closer => exact List.mem_append_left _ member
    | wait stop => exact List.mem_append_left _ cancelled
    | cancelTimer => exact cancelled
  obtain ⟨core, effects⟩ := outcome
  have kept : ∀ t : Session.State, .connect caller ∈ t.operations →
      .connect caller ∈
        (effects.foldl Session.State.perform t).operations := by
    induction effects with
    | nil => exact fun _ member => member
    | cons effect rest induction =>
        intro t member
        exact induction _ (performed t effect member)
  exact kept { s with core := core } member

namespace State

def Unconnecting (s : State Byte Response) : Prop :=
  ∀ caller, .connect caller ∉ s.session.operations

theorem unconnecting_of_inFlight {s : State Byte Response}
    (free : s.session.inFlight = []) : s.Unconnecting := by
  intro caller member
  have occupies : .connect caller ∈ s.session.inFlight :=
    List.mem_filter.mpr ⟨member, rfl⟩
  rw [free] at occupies
  cases occupies

/-- An operation that occupies the transport is alone in that. -/
theorem Linked.sole {s : State Byte Response} (linked : s.Linked)
    (atMostOne : s.session.inFlight.length ≤ 1) {operation : Operation}
    (occupies : operation.occupies = true) {rest : List Operation}
    (perm : s.outstanding.Perm (operation :: rest)) :
    ∀ other ∈ rest, other.occupies = false := by
  obtain ⟨among, same, sublist⟩ := linked.subperm
  have fewer := (sublist.filter Operation.occupies).length_le
  have equal := ((same.trans perm).filter Operation.occupies).length_eq
  have noMore : (rest.filter Operation.occupies).length = 0 := by
    rw [List.filter_cons_of_pos occupies, List.length_cons] at equal
    have bound : (s.session.operations.filter Operation.occupies).length ≤ 1 :=
      atMostOne
    omega
  intro other member
  cases occupied : other.occupies with
  | false => rfl
  | true =>
      have positive := List.length_pos_of_mem
        (List.mem_filter.mpr ⟨member, occupied⟩)
      omega

end State

def Waiting.Shuts (endpoint : SessionEndpoint) (t : Transport Byte)
    (waiting : Waiting Byte Response) : Prop :=
  waiting.point.kind = .close ∧ (endpoint.isTunnel = true ∨
    (waiting.point ≠ .closePosted ∧
      (waiting.point = .shuttingDown → waiting.stream = t.stream)))

namespace Standing

/-- What the standing says of the operations under way. -/
structure Kept (endpoint : SessionEndpoint)
    (s : State Byte Response × List Note) : Prop where
  served : Served s.2
  fits : ∀ waiting ∈ s.1.waiting, waiting.Fits
  connecting : s.1.session.core.running = true → ∀ waiting ∈ s.1.waiting,
    ∀ caller, waiting.operation = .connect caller →
    ofLog s.2 = .connecting caller
  /-- a stream that is renewed under a connect is not open -/
  current : ∀ waiting ∈ s.1.waiting, ∀ caller,
    waiting.operation = .connect caller →
    waiting.stream = s.1.transport.stream ∨
      (endpoint.isTunnel = true ∧ s.1.transport.isOpen = false)
  connected : s.1.session.core.running = true → ∀ completing,
    s.1.completing = some completing → ∀ caller,
    completing.operation = .connect caller → completing.ec = none →
    s.1.transport.isOpen = true ∨ (∃ op, caller = .queue op) →
    ofLog s.2 = .ready s.1.transport.stream
  /-- an open socket is connected, unless the queue is closing it -/
  ready : s.1.session.core.running = true → s.1.Unconnecting →
    s.1.transport.isOpen = true →
    ofLog s.2 = .ready s.1.transport.stream ∨
      ∃ waiting ∈ s.1.waiting,
        (∃ op, waiting.operation.queueOp? = some op) ∧
        waiting.Shuts endpoint s.1.transport

theorem Served.append {log notes : List Note} (served : Served log)
    (none : ∀ stream, .exchanges stream ∉ notes) : Served (log ++ notes) := by
  intro before stream later split
  rcases List.append_eq_append_iff.mp split with
    ⟨more, rfl, rest⟩ | ⟨more, rfl, rest⟩
  · refine (none stream ?_).elim
    rw [rest]
    exact List.mem_append_right _ List.mem_cons_self
  · cases more with
    | nil =>
        rw [List.nil_append] at rest
        refine (none stream ?_).elim
        rw [← rest]
        exact List.mem_cons_self
    | cons note more =>
        obtain ⟨rfl, rfl⟩ := List.cons.inj rest
        exact served before stream more rfl

theorem Served.exchanges {log : List Note} (served : Served log)
    {stream : Nat} (ready : ofLog log = .ready stream) :
    Served (log ++ [.exchanges stream]) := by
  intro before other later split
  rcases List.append_eq_append_iff.mp split with
    ⟨more, rfl, rest⟩ | ⟨more, rfl, rest⟩
  · cases more with
    | nil =>
        rw [List.nil_append] at rest
        obtain ⟨same, _⟩ := List.cons.inj rest
        rw [List.append_nil, ← Note.exchanges.inj same]
        exact ready
    | cons note more =>
        have empty := (List.cons.inj rest).2
        simp at empty
  · cases more with
    | nil =>
        rw [List.nil_append] at rest
        rw [List.append_nil] at ready
        obtain ⟨same, _⟩ := List.cons.inj rest
        rw [Note.exchanges.inj same]
        exact ready
    | cons note more =>
        obtain ⟨rfl, rfl⟩ := List.cons.inj rest
        exact served before other more rfl

variable {codec : Codec Byte Response} {endpoint : SessionEndpoint}
  {request : PushId → Request}

/-- An operation that is no connect is answered: it opens no socket, and if it
is a close of the queue it leaves none open. -/
theorem Kept.other_answered {s : State Byte Response × List Note}
    (kept : Kept endpoint s) {t : State Byte Response} {index : Nat}
    {answer : Answer Byte}
    (answered : Answered codec endpoint s.1 index answer t)
    (notConnect : ∀ caller, answered.flight.operation ≠ .connect caller)
    (stays : answered.next.2.StaysIn answered.flight.point.kind)
    (stream : t.transport.stream = s.1.transport.stream ∨
      (endpoint.isTunnel = true ∧ t.transport.isOpen = false))
    (opens : t.transport.isOpen = true → s.1.transport.isOpen = true)
    (shuts : answered.flight.toWaiting.Shuts endpoint s.1.transport →
      t.transport.isOpen = false) : Kept endpoint (t, s.2) := by
  have entered := answered.entered
  have perm := State.waiting_perm answered.member
  have session : t.session = s.1.session := entered.session
  refine
    { served := kept.served
      fits := ?_
      connecting := ?_
      current := ?_
      connected := ?_
      ready := ?_ }
  · intro waiting member
    rcases answered.waits member with earlier | ⟨point, awaits, rfl⟩
    · exact kept.fits waiting earlier
    · rw [awaits] at stays
      have kind : point.kind = answered.flight.point.kind := stays
      exact (kept.fits _ answered.waited).trans (congrArg some kind.symm)
  · intro running waiting member caller connects
    rw [session] at running
    rcases answered.waits member with earlier | ⟨_, _, rfl⟩
    · exact kept.connecting running waiting earlier caller connects
    · exact (notConnect caller connects).elim
  · intro waiting member caller connects
    rcases answered.waits member with earlier | ⟨_, _, rfl⟩
    · rcases kept.current waiting earlier caller connects with
        same | ⟨tunnel, closed⟩
      · rcases stream with kept | renewed
        · exact .inl (same.trans kept.symm)
        · exact .inr renewed
      · refine .inr ⟨tunnel, ?_⟩
        cases isOpen : t.transport.isOpen with
        | false => rfl
        | true => simp [opens isOpen] at closed
    · exact (notConnect caller connects).elim
  · intro running completing some caller connects
    have completes := entered.completing
    rw [some, Option.or_none] at completes
    have operation := State.completion_operation completes.symm
    exact (notConnect caller (operation.symm.trans connects)).elim
  · intro running unconnecting isOpen
    rw [session] at running
    have same : t.transport.stream = s.1.transport.stream := by
      rcases stream with same | ⟨_, closed⟩
      · exact same
      · exact Bool.noConfusion (closed.symm.trans isOpen)
    have before : s.1.Unconnecting := by
      intro caller member
      rw [← session] at member
      exact unconnecting caller member
    rw [same]
    rcases kept.ready running before (opens isOpen) with ready |
      ⟨waiting, member, queue, closing⟩
    · exact .inl ready
    · refine .inr ⟨waiting, ?_, queue, ?_⟩
      · rw [entered.waiting]
        rcases List.mem_cons.mp (perm.subset member) with rfl | other
        · simp [shuts closing] at isOpen
        · exact List.mem_append_left _ other
      · unfold Waiting.Shuts at closing ⊢
        rw [same]
        exact closing

theorem Kept.exchange_answered {s : State Byte Response × List Note}
    (kept : Kept endpoint s) {t : State Byte Response} {index : Nat}
    {answer : Answer Byte}
    (answered : Answered codec endpoint s.1 index answer t) {op : QueueOp}
    (exchanges : answered.flight.operation = .exchange op)
    (kind : answered.flight.point.kind = .exchange) :
    Kept endpoint (t, s.2) := by
  have transport := answered.entered.transport
  obtain ⟨io, point⟩ := Point.exchanging_of_kind kind
  have resumed := answered.resumed
  rw [point] at resumed
  obtain ⟨result, u, _, _, stream, isOpen, next⟩ :=
    Point.resume_exchanging resumed
  have keeps := @Step.Keeps.processOneResume _ _ codec result u
  rw [← next] at keeps
  refine kept.other_answered answered ?_ ?_ (.inl ?_) ?_ ?_
  · intro caller other
    rw [exchanges] at other
    cases other
  · rw [kind]
    exact keeps.stays
  · rw [transport, keeps.stream, stream]
  · rw [transport, next, processOneResume_isOpen, isOpen]
    exact Transport.isOpen_of_afterAnswer
  · intro shuts
    have closes := shuts.1
    rw [kind] at closes
    cases closes

theorem Kept.close_answered {s : State Byte Response × List Note}
    (kept : Kept endpoint s) {t : State Byte Response} {index : Nat}
    {answer : Answer Byte}
    (answered : Answered codec endpoint s.1 index answer t)
    {graceful : GracefulShutdown} {closer : Closer}
    (closes : answered.flight.operation = .close graceful closer)
    (kind : answered.flight.point.kind = .close) :
    Kept endpoint (t, s.2) := by
  have transport := answered.entered.transport
  obtain ⟨ec, u, closing, next⟩ := Point.closes answered.resumed kind
  have ends := @closed_closes _ Response endpoint ec _ _
    (closing.stream_eq.trans (Transport.afterAnswer_stream _ _ _))
  rw [← next] at ends
  refine kept.other_answered answered ?_ ?_ ?_ ?_ ?_
  · intro caller other
    rw [closes] at other
    cases other
  · obtain ⟨result, completes⟩ := ends.completes
    rw [completes]
    trivial
  · rw [transport]
    cases tunnel : endpoint.isTunnel with
    | true => exact .inr ⟨rfl, ends.tunnel tunnel⟩
    | false => exact .inl (ends.basic tunnel)
  · intro isOpen
    rw [transport, next] at isOpen
    have open' : u.isOpen = true := by
      cases shut : u.isOpen with
      | true => rfl
      | false => simp [closed_isOpen endpoint ec shut] at isOpen
    exact Transport.isOpen_of_afterAnswer (closing.isOpen_of open')
  · intro shuts
    rw [transport]
    rcases shuts.2 with tunnel | ⟨notPosted, current⟩
    · exact ends.tunnel tunnel
    · rw [next]
      refine closed_isOpen endpoint ec (closing.closes ?_ ?_)
      · intro posted
        exact (notPosted posted).elim
      · intro shutting
        exact .inl ((current shutting).trans
          (Transport.afterAnswer_stream _ _ _).symm)

theorem completion_ends {caller : Connector} {stream : Nat}
    {yield : Yield Byte Response} {ec : Option ErrorCode}
    (ends : yield.Ends ec) :
    completion (.connect caller) stream yield =
      [.connected caller ec stream] := by
  rcases ends with rfl | rfl
  · rfl
  · rfl

theorem ofLog_append (log : List Note) (note : Note) :
    ofLog (log ++ [note]) = (ofLog log).after note := by
  simp [ofLog]

theorem alone_of_answered {s t : State Byte Response} (linked : s.Linked)
    (atMostOne : s.session.inFlight.length ≤ 1) {index : Nat}
    {answer : Answer Byte}
    (answered : Answered codec endpoint s index answer t) {caller : Connector}
    (connects : answered.flight.operation = .connect caller)
    {waiting : Waiting Byte Response}
    (member : waiting ∈ State.waiting { s with
      flights := s.flights.eraseIdx index
      completing := none }) (other : Connector) :
    waiting.operation ≠ .connect other := by
  have outstanding : s.outstanding.Perm (answered.flight.operation ::
      (State.waiting { s with
        flights := s.flights.eraseIdx index
        completing := none }).map Waiting.operation) := by
    simpa [State.outstanding, State.waiting, answered.idle] using
      (State.waiting_perm answered.member).map Waiting.operation
  intro same
  have free := linked.sole atMostOne (by rw [connects]; rfl) outstanding
    waiting.operation (List.mem_map_of_mem member)
  rw [same] at free
  cases free

theorem waits_of_connect {s t : State Byte Response} (linked : s.Linked)
    (atMostOne : s.session.inFlight.length ≤ 1) {index : Nat}
    {answer : Answer Byte}
    (answered : Answered codec endpoint s index answer t) {caller : Connector}
    (connects : answered.flight.operation = .connect caller)
    {waiting : Waiting Byte Response} (member : waiting ∈ t.waiting) :
    (waiting ∈ s.waiting ∧ ∀ other, waiting.operation ≠ .connect other) ∨
      ∃ point, answered.next.2 = .await point ∧
        waiting = ⟨.connect caller, point, t.transport.stream⟩ := by
  rcases answered.entered.waits member with earlier | ⟨point, awaits, rfl⟩
  · exact .inl ⟨answered.rest earlier,
      alone_of_answered linked atMostOne answered connects earlier⟩
  · exact .inr ⟨point, awaits, by rw [connects, answered.entered.transport]⟩

/-- A connect that succeeds ends on the current stream, if it leaves the socket
open or is one of the queue. -/
theorem Kept.current_of_ended {s : State Byte Response × List Note}
    (kept : Kept endpoint s) {t : State Byte Response} {index : Nat}
    {answer : Answer Byte}
    (answered : Answered codec endpoint s.1 index answer t)
    (steady : answered.flight.Steady s.1 answer)
    (running : s.1.session.core.running = true) {caller : Connector}
    (connects : answered.flight.operation = .connect caller)
    (socket : answered.next.1.isOpen =
      (s.1.transport.afterAnswer answered.flight.stream answer).isOpen)
    (last : endpoint.isTunnel = false ∨
      (answered.flight.point = .handshaking ∧
        ∃ closes, answer = .ended none closes))
    (cause : t.transport.isOpen = true ∨ ∃ op, caller = .queue op) :
    answered.flight.stream = s.1.transport.stream := by
  rcases kept.current _ answered.waited caller connects with
    same | ⟨tunnel, closed⟩
  · exact same
  · rcases cause with isOpen | ⟨op, rfl⟩
    · rw [answered.entered.transport, socket] at isOpen
      rw [Transport.isOpen_of_afterAnswer isOpen] at closed
      cases closed
    · rcases last with basic | ⟨handshaking, closes, rfl⟩
      · simp [tunnel] at basic
      · refine steady ?_ rfl running
        simp only [Flight.queueShakes, handshaking, connects]

theorem Yield.Ends.completion_ec {operation : Operation}
    {next : Step Byte Response} {ec : Option ErrorCode} (ends : next.2.Ends ec)
    {completing : Completing}
    (completes : State.completion operation next = some completing) :
    completing.ec = ec := by
  rcases ends with ends | ends
  · simp only [State.completion, ends, Option.some.injEq] at completes
    rw [← completes]
  · simp only [State.completion, ends, Option.some.injEq] at completes
    rw [← completes]

theorem Kept.connected_answered {s : State Byte Response × List Note}
    (kept : Kept endpoint s) {t : State Byte Response} {index : Nat}
    {answer : Answer Byte}
    (answered : Answered codec endpoint s.1 index answer t)
    (steady : answered.flight.Steady s.1 answer)
    (running : s.1.session.core.running = true) {caller : Connector}
    (connects : answered.flight.operation = .connect caller)
    (kind : answered.flight.point.kind = .connect) {completing : Completing}
    (completes : State.completion answered.flight.operation answered.next =
      some completing) (noError : completing.ec = none)
    (cause : t.transport.isOpen = true ∨ ∃ op, caller = .queue op) :
    ofLog (s.2 ++ completion answered.flight.operation
      answered.flight.stream answered.next.2) =
        .ready s.1.transport.stream := by
  have step := Point.connects answered.resumed kind
  rcases step.outcome with ⟨later, awaits⟩ | escapes | ⟨error, fails⟩ |
    ⟨ends, socket, last⟩
  · simp [State.completion, awaits] at completes
  · simp [State.completion, escapes] at completes
  · have failed := Yield.Ends.completion_ec fails completes
    simp [failed] at noError
  · have standing := kept.connecting running _ answered.waited caller connects
    have current := kept.current_of_ended answered steady running connects
      socket last cause
    rw [connects, completion_ends ends, ofLog_append, standing, ← current]
    simp [after]

theorem Kept.connect_answered {s : State Byte Response × List Note}
    (kept : Kept endpoint s) (linked : s.1.Linked)
    (atMostOne : s.1.session.inFlight.length ≤ 1) {t : State Byte Response}
    {index : Nat} {answer : Answer Byte}
    (answered : Answered codec endpoint s.1 index answer t)
    (steady : answered.flight.Steady s.1 answer) {caller : Connector}
    (connects : answered.flight.operation = .connect caller)
    (kind : answered.flight.point.kind = .connect) :
    Kept endpoint (t, s.2 ++ completion answered.flight.operation
      answered.flight.stream answered.next.2) := by
  have entered := answered.entered
  have session : t.session = s.1.session := entered.session
  have keeps := (Point.connects answered.resumed kind).keeps
  have split := fun waiting (member : waiting ∈ t.waiting) =>
    waits_of_connect linked atMostOne answered connects member
  refine
    { served := kept.served.append ?_
      fits := ?_
      connecting := ?_
      current := ?_
      connected := ?_
      ready := ?_ }
  · intro other
    rw [connects]
    cases answered.next.2 <;> simp [completion]
  · intro waiting member
    rcases split waiting member with ⟨earlier, _⟩ | ⟨point, awaits, rfl⟩
    · exact kept.fits waiting earlier
    · have stays := keeps.stays
      rw [awaits] at stays
      exact congrArg some stays.symm
  · intro running waiting member other same
    rw [session] at running
    rcases split waiting member with ⟨_, notConnect⟩ | ⟨point, awaits, rfl⟩
    · exact (notConnect other same).elim
    · obtain rfl := Operation.connect.inj same
      rw [awaits]
      simpa only [completion, List.append_nil] using
        kept.connecting running _ answered.waited caller connects
  · intro waiting member other same
    rcases split waiting member with ⟨_, notConnect⟩ | ⟨_, _, rfl⟩
    · exact (notConnect other same).elim
    · exact .inl rfl
  · intro running completing some other operation noError cause
    rw [session] at running
    have completes := entered.completing
    rw [some, Option.or_none] at completes
    have own := State.completion_operation completes.symm
    obtain rfl := Operation.connect.inj
      (operation.symm.trans (own.trans connects))
    rw [show t.transport.stream = s.1.transport.stream by
      rw [entered.transport, keeps.stream, Transport.afterAnswer_stream]]
    exact kept.connected_answered answered steady running connects kind
      completes.symm noError cause
  · intro _ unconnecting
    refine (unconnecting caller ?_).elim
    rw [session, ← connects]
    exact linked.mem answered.waited

theorem notes_answered {s t : State Byte Response} {index : Nat}
    {answer : Answer Byte}
    (answered : Answered codec endpoint s index answer t) :
    notes codec endpoint s (.answer index answer) =
      completion answered.flight.operation answered.flight.stream
        answered.next.2 := by
  simp only [notes, Event.label, answered.member, answered.resumed]

theorem Kept.answered {s : State Byte Response × List Note}
    (kept : Kept endpoint s) (linked : s.1.Linked)
    (atMostOne : s.1.session.inFlight.length ≤ 1) {t : State Byte Response}
    {index : Nat} {answer : Answer Byte}
    (answered : Answered codec endpoint s.1 index answer t)
    (steady : answered.flight.Steady s.1 answer) :
    Kept endpoint (t, s.2 ++ notes codec endpoint s.1
      (.answer index answer)) := by
  have fits := kept.fits _ answered.waited
  rw [notes_answered answered]
  cases operation : answered.flight.operation with
  | connect caller =>
      rw [Waiting.Fits, operation] at fits
      have kind := (Option.some.inj fits).symm
      rw [← operation]
      exact kept.connect_answered linked atMostOne answered steady operation
        kind
  | exchange op =>
      rw [Waiting.Fits, operation] at fits
      have kind := (Option.some.inj fits).symm
      have quiet : completion (.exchange op) answered.flight.stream
          answered.next.2 = [] := by
        cases answered.next.2 <;> rfl
      rw [quiet, List.append_nil]
      exact kept.exchange_answered answered operation kind
  | close graceful closer =>
      rw [Waiting.Fits, operation] at fits
      have kind := (Option.some.inj fits).symm
      have quiet : completion (.close graceful closer) answered.flight.stream
          answered.next.2 = [] := by
        cases answered.next.2 <;> rfl
      rw [quiet, List.append_nil]
      exact kept.close_answered answered operation kind
  | wait waiter cancelled =>
      rw [Waiting.Fits, operation] at fits
      cases fits

/-- A connect of the queue that fails stops the session, unless it was
aborted. -/
theorem aborted_of_running {op : QueueOp} (connected : op.coro = .connected)
    {error : ErrorCode} {isOpen : Bool} {c : Core}
    (running : (op.call (some error) isOpen c).1.running = true) :
    error = .operationAborted := by
  by_cases aborted : error = .operationAborted
  · exact aborted
  · cases before : c.running with
    | false =>
        simp [QueueOp.call, before, QueueOp.complete, Core.postHandler]
          at running
    | true =>
        simp [QueueOp.call, before, aborted, connected, QueueOp.complete,
          Core.postHandler, Core.setRunning] at running

theorem connect_mem_stepped {s t : Session.State} {label : Session.Event}
    (stepped : Session.step s label = some t) {caller : Connector}
    (other : ∀ ec isOpen, label ≠ .resume (.connect caller) ec isOpen)
    (member : .connect caller ∈ s.operations) :
    .connect caller ∈ t.operations := by
  obtain ⟨_, rfl⟩ := step_eq stepped
  apply connect_mem_apply
  cases label with
  | push => exact member
  | start => exact member
  | stop graceful => exact member
  | post handler isOpen => exact member
  | resume operation ec isOpen =>
      refine (List.mem_erase_of_ne ?_).mpr member
      intro same
      rw [← same] at other
      exact other ec isOpen rfl

theorem Kept.resumed {s : State Byte Response × List Note}
    (kept : Kept endpoint s) (points : s.1.session.AtPoints)
    {label : Session.Event} {t : State Byte Response}
    (handled : Handled endpoint request s.1 label t)
    (notStart : label ≠ .start)
    (leaves : ∀ completing, s.1.completing = some completing →
      completing.Leaves s.1) :
    Kept endpoint (s.1.resumed handled.session, s.2) := by
  have runs : handled.session.core.running = true →
      s.1.session.core.running = true := by
    intro running
    cases before : s.1.session.core.running with
    | true => rfl
    | false =>
        rw [Session.State.step_stopped handled.stepped notStart before]
          at running
        cases running
  refine
    { served := kept.served
      fits := kept.fits
      connecting := fun running => kept.connecting (runs running)
      current := kept.current
      connected := fun _ _ some => by cases some
      ready := ?_ }
  intro running unconnecting isOpen
  have ran := runs running
  by_cases connects : ∃ caller ec opened,
      label = .resume (.connect caller) ec opened
  · obtain ⟨caller, ec, opened, rfl⟩ := connects
    cases idle : s.1.completing with
    | none =>
        obtain ⟨_, _, other⟩ := handled.alone idle _ _ _ rfl
        cases other
    | some completing =>
        have same := handled.caller completing idle
        obtain ⟨operation, code, _⟩ := Session.Event.resume.inj same
        cases ec with
        | none =>
            exact .inl (kept.connected ran completing idle caller
              operation.symm code.symm (.inl isOpen))
        | some error =>
            have left := leaves completing idle
            simp only [Completing.Leaves, ← operation, ← code] at left
            have cause : (Operation.connect caller).isStartConnect = true ∨
                error = .operationAborted := by
              cases caller with
              | start handler => exact .inl rfl
              | queue op =>
                  obtain ⟨enabled, session⟩ := step_eq handled.stepped
                  have connected : op.coro = .connected :=
                    points.operations _ enabled.1
                  have core := congrArg Session.State.core session
                  rw [Session.State.apply_core] at core
                  have after : handled.session.core.running = true := running
                  rw [core] at after
                  exact .inr (aborted_of_running connected after)
            exact Bool.noConfusion ((left ran cause).symm.trans isOpen)
  · have before : s.1.Unconnecting := by
      intro caller member
      refine unconnecting caller (connect_mem_stepped handled.stepped ?_ member)
      intro ec opened same
      exact connects ⟨caller, ec, opened, same⟩
    exact kept.ready ran before isOpen

theorem Kept.enter_connect {u : State Byte Response} {log : List Note}
    (served : Served log) (fits : ∀ waiting ∈ u.waiting, waiting.Fits)
    (alone : ∀ waiting ∈ u.waiting, ∀ other,
      waiting.operation ≠ .connect other)
    (idle : u.completing = none) {caller : Connector}
    (member : .connect caller ∈ u.session.operations)
    {t : State Byte Response}
    (entered : u.Entered (.connect caller) (connect endpoint u.transport) t) :
    Kept endpoint (t, log ++ [.connects caller]) := by
  obtain ⟨domain, service, resolves⟩ :=
    @connect_resolves Byte Response endpoint u.transport
  have standing : ofLog (log ++ [.connects caller]) = .connecting caller := by
    rw [ofLog_append]
    rfl
  have split : ∀ waiting ∈ t.waiting, waiting ∈ u.waiting ∨
      waiting = ⟨.connect caller, .resolving domain service,
        t.transport.stream⟩ := by
    intro waiting inWaiting
    rcases entered.waits inWaiting with earlier | ⟨point, awaits, rfl⟩
    · exact .inl earlier
    · rw [resolves] at awaits
      exact .inr (by rw [Yield.await.inj awaits, entered.transport])
  refine
    { served := served.append (by simp)
      fits := ?_
      connecting := ?_
      current := ?_
      connected := ?_
      ready := ?_ }
  · intro waiting inWaiting
    rcases split waiting inWaiting with earlier | rfl
    · exact fits waiting earlier
    · rfl
  · intro _ waiting inWaiting other connects
    rcases split waiting inWaiting with earlier | rfl
    · exact (alone waiting earlier other connects).elim
    · rw [← Operation.connect.inj connects]
      exact standing
  · intro waiting inWaiting other connects
    rcases split waiting inWaiting with earlier | rfl
    · exact (alone waiting earlier other connects).elim
    · exact .inl rfl
  · intro _ completing some
    have completes := entered.completing
    rw [some, idle, Option.or_none] at completes
    simp [State.completion, resolves] at completes
  · intro _ unconnecting
    refine (unconnecting caller ?_).elim
    rw [entered.session]
    exact member

theorem Kept.enter_exchange {u : State Byte Response} {log : List Note}
    (kept : Kept endpoint (u, log)) (idle : u.completing = none)
    (ready : ofLog log = .ready u.transport.stream) {op : QueueOp}
    {sent : Request} {t : State Byte Response}
    (entered : u.Entered (.exchange op) (processOne sent u.transport) t) :
    Kept endpoint (t, log ++ [.exchanges u.transport.stream]) := by
  have keeps := @Step.Keeps.processOne _ Response sent u.transport
  have standing : ofLog (log ++ [.exchanges u.transport.stream]) =
      ofLog log := by
    rw [ofLog_append]
    rfl
  have stream : t.transport.stream = u.transport.stream := by
    rw [entered.transport, keeps.stream]
  have isOpen : t.transport.isOpen = u.transport.isOpen := by
    rw [entered.transport, processOne_isOpen]
  refine
    { served := kept.served.exchanges ready
      fits := ?_
      connecting := ?_
      current := ?_
      connected := ?_
      ready := ?_ }
  · intro waiting inWaiting
    rcases entered.waits inWaiting with earlier | ⟨point, awaits, rfl⟩
    · exact kept.fits waiting earlier
    · have stays := keeps.stays
      rw [awaits] at stays
      exact congrArg some stays.symm
  · intro running waiting inWaiting caller connects
    rw [entered.session] at running
    rw [standing]
    rcases entered.waits inWaiting with earlier | ⟨_, _, rfl⟩
    · exact kept.connecting running waiting earlier caller connects
    · cases connects
  · intro waiting inWaiting caller connects
    rw [stream, isOpen]
    rcases entered.waits inWaiting with earlier | ⟨_, _, rfl⟩
    · exact kept.current waiting earlier caller connects
    · cases connects
  · intro _ completing some caller connects
    have completes := entered.completing
    rw [some, idle, Option.or_none] at completes
    rw [State.completion_operation completes.symm] at connects
    cases connects
  · intro _ _ _
    rw [standing, stream]
    exact .inl ready

theorem socket_of_close {u t : State Byte Response}
    {graceful : GracefulShutdown} {closer : Closer}
    (entered : u.Entered (.close graceful closer)
      (close endpoint graceful u.transport) t) :
    (t.transport.stream = u.transport.stream ∧
        t.transport.isOpen = u.transport.isOpen) ∨
      (endpoint.isTunnel = true ∧ t.transport.isOpen = false) := by
  rw [entered.transport]
  rcases @close_waits Byte Response endpoint graceful u.transport with
    ⟨point, _, _, waits⟩ | ⟨_, isOpen, ends⟩
  · rw [waits]
    exact .inl ⟨rfl, rfl⟩
  · rw [ends]
    cases tunnel : endpoint.isTunnel with
    | true => exact .inr ⟨rfl, (closed_closes _ _ rfl).tunnel tunnel⟩
    | false =>
        left
        simp only [closed, tunnel]
        exact ⟨rfl, rfl⟩

theorem waits_of_close {u t : State Byte Response}
    {graceful : GracefulShutdown} {closer : Closer}
    (entered : u.Entered (.close graceful closer)
      (close endpoint graceful u.transport) t)
    {waiting : Waiting Byte Response} (member : waiting ∈ t.waiting) :
    waiting ∈ u.waiting ∨ (waiting.operation = .close graceful closer ∧
      waiting.point.kind = .close) := by
  rcases entered.waits member with earlier | ⟨point, awaits, rfl⟩
  · exact .inl earlier
  · rcases @close_waits Byte Response endpoint graceful u.transport with
      ⟨point, kind, _, waits⟩ | ⟨_, _, ends⟩
    · rw [waits] at awaits
      rw [← Yield.await.inj awaits]
      exact .inr ⟨rfl, kind⟩
    · rw [ends, closed_completes] at awaits
      cases awaits

/-- A graceful close waits until the socket is closed. -/
theorem shuts_of_graceful {u t : State Byte Response} {closer : Closer}
    (entered : u.Entered (.close .yes closer)
      (close endpoint .yes u.transport) t)
    (isOpen : t.transport.isOpen = true) :
    ∃ waiting ∈ t.waiting, waiting.operation = .close .yes closer ∧
      waiting.Shuts endpoint t.transport := by
  rcases @close_waits Byte Response endpoint .yes u.transport with
    ⟨point, kind, notOpen, waits⟩ | ⟨other, _⟩
  · have new : (⟨.close .yes closer, point,
        t.transport.stream⟩ : Waiting Byte Response) ∈ t.waiting := by
      rw [entered.waiting, entered.transport, waits]
      exact List.mem_append_right _ List.mem_cons_self
    refine ⟨_, new, rfl, kind, .inr ⟨?_, fun _ => rfl⟩⟩
    intro posted
    rw [entered.transport, waits] at isOpen
    exact Bool.noConfusion ((notOpen posted).symm.trans isOpen)
  · cases other

/-- A close is started on a session that was stopped, or by the queue while no
connect is under way. -/
theorem Kept.enter_close {u : State Byte Response} {log : List Note}
    (kept : Kept endpoint (u, log)) (idle : u.completing = none)
    {graceful : GracefulShutdown} {closer : Closer}
    (cause : u.session.core.running = false ∨
      (graceful = .yes ∧ (∃ op, closer = .queue op) ∧
        ∀ waiting ∈ u.waiting, ∀ other,
          waiting.operation ≠ .connect other))
    {t : State Byte Response}
    (entered : u.Entered (.close graceful closer)
      (close endpoint graceful u.transport) t) :
    Kept endpoint (t, log ++ [.closes]) := by
  refine
    { served := kept.served.append (by simp)
      fits := ?_
      connecting := ?_
      current := ?_
      connected := ?_
      ready := ?_ }
  · intro waiting inWaiting
    rcases waits_of_close entered inWaiting with earlier | ⟨operation, kind⟩
    · exact kept.fits waiting earlier
    · rw [Waiting.Fits, operation, kind]
      rfl
  · intro running waiting inWaiting caller connects
    rw [entered.session] at running
    rcases cause with stopped | ⟨_, _, alone⟩
    · exact Bool.noConfusion (stopped.symm.trans running)
    · rcases waits_of_close entered inWaiting with earlier | ⟨operation, _⟩
      · exact (alone waiting earlier caller connects).elim
      · rw [operation] at connects
        cases connects
  · intro waiting inWaiting caller connects
    rcases waits_of_close entered inWaiting with earlier | ⟨operation, _⟩
    · rcases socket_of_close entered with ⟨stream, isOpen⟩ | renewed
      · rw [stream, isOpen]
        exact kept.current waiting earlier caller connects
      · exact .inr renewed
    · rw [operation] at connects
      cases connects
  · intro _ completing some caller connects
    have completes := entered.completing
    rw [some, idle, Option.or_none] at completes
    rw [State.completion_operation completes.symm] at connects
    cases connects
  · intro running _ isOpen
    rw [entered.session] at running
    rcases cause with stopped | ⟨rfl, ⟨op, rfl⟩, _⟩
    · exact Bool.noConfusion (stopped.symm.trans running)
    · obtain ⟨waiting, member, operation, shuts⟩ :=
        shuts_of_graceful entered isOpen
      exact .inr ⟨waiting, member, ⟨op, by rw [operation]; rfl⟩, shuts⟩

theorem Kept.end_handler {u : State Byte Response} {log : List Note}
    (kept : Kept endpoint (u, log)) (cancelTimer : Bool) :
    Kept endpoint (u.handled cancelTimer, log) := by
  cases cancelTimer with
  | false => exact kept
  | true =>
      exact ⟨kept.served, kept.fits, kept.connecting, kept.current,
        kept.connected, kept.ready⟩

theorem leaves_of_settles {s : State Byte Response} {event : Event Byte}
    (settles : event.Settles s) {label : Session.Event}
    (named : event.label s = some label) {t : State Byte Response}
    (handled : Handled endpoint request s label t) {completing : Completing}
    (ends : s.completing = some completing) : completing.Leaves s := by
  have same := handled.caller completing ends
  cases event with
  | complete => exact settles.2 completing ends
  | answer index answer => cases named
  | push => cases named.trans (congrArg some same)
  | start => cases named.trans (congrArg some same)
  | stop graceful => cases named.trans (congrArg some same)
  | post handler => cases named.trans (congrArg some same)
  | timer waiter cancelled ec =>
      have wait := (Session.Event.resume.inj
        (Option.some.inj (named.trans (congrArg some same)))).1
      unfold Completing.Leaves
      rw [← wait]
      trivial

/-- An open socket that the queue finds is that of a connect that has succeeded.
-/
theorem Kept.ready_of_takes {s : State Byte Response × List Note}
    (kept : Kept endpoint s) (linked : s.1.Linked)
    (invariant : s.1.session.Invariant) {handler : Posted}
    (posted : handler ∈ s.1.session.posts)
    (takes : handler.takesTask s.1.session.core = true)
    (free : s.1.session.inFlight = [])
    (isOpen : s.1.transport.isOpen = true) :
    ofLog s.2 = .ready s.1.transport.stream := by
  rcases kept.ready (Posted.running_of_takes takes)
    (State.unconnecting_of_inFlight free) isOpen with
    ready | ⟨waiting, member, ⟨other, queue⟩, _⟩
  · exact ready
  · have none := linked.queueOps_nil invariant posted
      (List.mem_append_left _ (List.mem_map_of_mem member))
    rw [queue] at none
    cases none

theorem unconnecting_of_free {s : State Byte Response} (linked : s.Linked)
    (free : s.session.inFlight = []) {waiting : Waiting Byte Response}
    (member : waiting ∈ s.waiting) (other : Connector) :
    waiting.operation ≠ .connect other := by
  intro connects
  have inOperations := linked.mem member
  rw [connects] at inOperations
  exact State.unconnecting_of_inFlight free other inOperations

theorem unconnecting_of_completing {s : State Byte Response}
    (linked : s.Linked) (atMostOne : s.session.inFlight.length ≤ 1)
    {completing : Completing} (ends : s.completing = some completing)
    (occupies : completing.operation.occupies = true)
    {waiting : Waiting Byte Response} (member : waiting ∈ s.waiting)
    (other : Connector) : waiting.operation ≠ .connect other := by
  have outstanding : s.outstanding.Perm (completing.operation ::
      s.waiting.map Waiting.operation) := by
    rw [State.outstanding, ends]
    exact List.perm_append_singleton _ _
  intro connects
  have free := linked.sole atMostOne occupies outstanding
    waiting.operation (List.mem_map_of_mem member)
  rw [connects] at free
  cases free

theorem Kept.launched {s : State Byte Response × List Note}
    (kept : Kept endpoint s) (linked : s.1.Linked)
    (invariant : s.1.session.Invariant)
    (atMostOne : s.1.session.inFlight.length ≤ 1) {event : Event Byte}
    {label : Session.Event} (named : event.label s.1 = some label)
    (noOverlap : label.NoOverlap s.1.session) {t : State Byte Response}
    (handled : Handled endpoint request s.1 label t)
    (base : label ≠ .start →
      Kept endpoint (s.1.resumed handled.session, s.2))
    {effect : Effect}
    (one : (label.outcome s.1.session.core).2 = [effect])
    (starts : label.Starts s.1.session.core effect) :
    Kept endpoint ((s.1.resumed handled.session).launch endpoint request effect,
      s.2 ++ Note.ofEffect s.1.transport.stream effect) := by
  have enabled := (step_eq handled.stepped).1
  have enters := fun {operation : Operation} {next : Step Byte Response}
      (begun : State.started endpoint request
        (s.1.resumed handled.session).transport effect =
          some (operation, next)) =>
    State.launch_entered begun
  have added : ∀ {operation : Operation} {next : Step Byte Response},
      State.started endpoint request s.1.transport effect =
        some (operation, next) →
      operation ∈ handled.session.operations := by
    intro operation next begun
    rw [← handled.session_eq, handled.operations one begun]
    exact List.mem_append_right _ List.mem_cons_self
  have fits : ∀ waiting ∈ (s.1.resumed handled.session).waiting,
      waiting.Fits := kept.fits
  cases starts with
  | elsewhere isLocal =>
      have quiet : Note.ofEffect s.1.transport.stream effect = [] := by
        cases effect <;> first | rfl | cases isLocal
      rw [quiet, List.append_nil, State.launch_local isLocal]
      refine base ?_
      rintro rfl
      obtain rfl := (List.cons.inj one).1
      cases isLocal
  | start =>
      exact Kept.enter_connect kept.served fits
        (fun _ => unconnecting_of_free linked noOverlap) rfl (added rfl)
        (enters rfl)
  | stop graceful =>
      exact (base nofun).enter_close rfl (.inl handled.stopped) (enters rfl)
  | connect takes =>
      have free := invariant.inFlight_of_post enabled (noOverlap takes)
      exact Kept.enter_connect kept.served fits
        (fun _ => unconnecting_of_free linked free) rfl (added rfl)
        (enters rfl)
  | reuse takes =>
      have free := invariant.inFlight_of_post enabled (noOverlap takes)
      have ready := kept.ready_of_takes linked invariant enabled takes free
        (Event.label_post named).2.symm
      exact (base nofun).enter_exchange rfl ready (enters rfl)
  | connected running task =>
      obtain ⟨completing, ends, operation, ec⟩ := handled.completes rfl nofun
      have ready := kept.connected running completing ends _ operation ec
        (.inr ⟨_, rfl⟩)
      exact (base nofun).enter_exchange rfl ready (enters rfl)
  | failed running task notAborted =>
      obtain ⟨completing, ends, operation, _⟩ := handled.completes rfl nofun
      exact (base nofun).enter_close rfl (.inr ⟨rfl, ⟨_, rfl⟩, fun _ =>
        unconnecting_of_completing linked atMostOne ends
          (by rw [operation]; rfl)⟩) (enters rfl)

theorem Kept.handled {s : State Byte Response × List Note}
    (kept : Kept endpoint s) (linked : s.1.Linked)
    (reached : Session.machine.Reached s.1.session)
    (atMostOne : s.1.session.inFlight.length ≤ 1) {event : Event Byte}
    (settles : event.Settles s.1) {label : Session.Event}
    (named : event.label s.1 = some label) {t : State Byte Response}
    (handled : Handled endpoint request s.1 label t) :
    Kept endpoint (t, s.2 ++ notes codec endpoint s.1 event) := by
  have points := reached_atPoints reached
  have enabled := (step_eq handled.stepped).1
  have after := handled.after
  have base := fun notStart => kept.resumed points handled notStart
    (fun _ ends => leaves_of_settles settles named handled ends)
  rcases label.effects (points.event enabled) s.1.session.core with
    none | ⟨effect, one, starts⟩
  · have quiet : notes codec endpoint s.1 event = [] := by
      simp [notes, named, none]
    rw [none] at after
    rw [after, quiet, List.append_nil]
    refine (base ?_).end_handler _
    rintro rfl
    cases none
  · have told : notes codec endpoint s.1 event =
        Note.ofEffect s.1.transport.stream effect := by
      simp [notes, named, one]
    rw [one, List.foldl_cons, List.foldl_nil] at after
    rw [after, told]
    exact (kept.launched linked (reached_invariant reached) atMostOne named
      (settles.1 label named) handled base one starts).end_handler _

/-- What a run of a connection is asked for. -/
def Allowed (s : State Byte Response) (event : Event Byte) : Prop :=
  event.AwaitsStart s ∧ event.Settles s

instance (s : State Byte Response) (event : Event Byte) :
    Decidable (Allowed s event) :=
  inferInstanceAs (Decidable (_ ∧ _))

theorem reached_atMostOne {s : State Byte Response}
    (reached : (Connection.machine codec endpoint request).ReachedBy Allowed
      s) : s.session.inFlight.length ≤ 1 := by
  have carried : ∀ (before : State Byte Response) (event : Event Byte)
      (after : State Byte Response) (image : Session.State)
      (label : Session.Event), before.session = image →
      Allowed before event →
      (Connection.machine codec endpoint request).step before event =
        some after →
      event.label before = some label → label.NoOverlap image := by
    intro before event after image label related allowed _ named
    rw [← related]
    exact allowed.2.1 label named
  obtain ⟨image, imageReached, related⟩ := simulation.reachedBy carried reached
  rw [related]
  exact reached_oneInFlight imageReached

theorem Kept.start : Kept endpoint (({} : State Byte Response), []) where
  served := by
    intro before stream later split
    simp at split
  fits := by simp [State.waiting]
  connecting := by simp [State.waiting]
  current := by simp [State.waiting]
  connected := by simp
  ready := by simp

/-- In every run whose caller waits for its starts, each exchange is started on
the stream on which the latest connect has succeeded, as long as a connect that
fails under a running session leaves no open socket, a connect of the queue
keeps its stream during the handshake, and starts stay apart from the queue. -/
theorem reached_served {s : State Byte Response × List Note}
    (reached : (machine codec endpoint request).ReachedBy
      (fun before event => Allowed before.1 event) s) :
    Served s.2 := by
  have kept : Kept endpoint s := by
    refine reached.invariant ?_ ?_
    · exact Kept.start
    · intro before event after earlier kept allowed stepped
      obtain ⟨underlying, log⟩ := Machine.logged_step stepped
      have unlogged : (Connection.machine codec endpoint request).ReachedBy
          Allowed before.1 := earlier.unlogged
      have linked := reached_linked unlogged.reached
      have atMostOne := reached_atMostOne unlogged
      obtain ⟨next, notes⟩ := after
      dsimp only at underlying log
      subst log
      rcases step_cases underlying with ⟨index, answer, rfl, ⟨answered⟩⟩ |
        ⟨label, named, ⟨handled⟩⟩
      · refine kept.answered linked atMostOne answered ?_
        exact allowed.2.2 answered.flight answered.member
      · exact kept.handled linked (reached_session unlogged.reached) atMostOne
          allowed.2 named handled
  exact kept.served

/-- A start that is refused and leaves the socket closed, another one that
succeeds, and a request. -/
def restartedRun : List (Event Char) :=
  [.start, .answer 0 (.resolved none none true),
    .answer 0 (.connected (some .connectionRefused) none false), .complete,
    .start, .answer 0 (.resolved none none true),
    .answer 0 (.connected none none true), .answer 0 (.ended none false),
    .complete, .push, .post .processTask]

theorem served_of_restartedRun :
    ∃ s, (machine textCodec (.secure ⟨"target", 443⟩)
          (fun _ => exampleRequest)).runWhere
          (fun before event => Allowed before.1 event) ({}, [])
          restartedRun = some s ∧
      .exchanges 0 ∈ s.2 ∧ Served s.2 := by
  have executed : ((machine textCodec (.secure ⟨"target", 443⟩)
        (fun _ => exampleRequest)).runWhere
        (fun before event => Allowed before.1 event) ({}, [])
        restartedRun).map (fun s => s.2) =
      some [.connects (.start 0),
        .connected (.start 0) (some .connectionRefused) 0,
        .connects (.start 1), .connected (.start 1) none 0, .exchanges 0] := by
    decide +kernel
  obtain ⟨s, run, log⟩ := Option.map_eq_some_iff.mp executed
  refine ⟨s, run, by simp [log], ?_⟩
  exact reached_served (Machine.reachedBy_of_runWhere restartedRun run)

/-- The handshake of a start fails and leaves the socket open; a request
follows. -/
def unshakenRun : List (Event Char) :=
  [.start, .answer 0 (.resolved none none true),
    .answer 0 (.connected none none true),
    .answer 0 (.ended (some (.other 0)) false), .complete, .push,
    .post .processTask]

theorem unshakenRun_not_served :
    ¬∀ (endpoint : SessionEndpoint) (s : State Char TextResponse × List Note),
      (machine textCodec endpoint (fun _ => exampleRequest)).ReachedBy
        (fun before event => event.AwaitsStart before.1) s →
      Served s.2 := by
  intro served
  have executed : ((machine textCodec (.secure ⟨"target", 443⟩)
        (fun _ => exampleRequest)).runWhere
        (fun before event => event.AwaitsStart before.1) ({}, [])
        unshakenRun).map (fun s => s.2) =
      some [.connects (.start 0), .connected (.start 0) (some (.other 0)) 0,
        .exchanges 0] := by
    decide +kernel
  obtain ⟨s, run, log⟩ := Option.map_eq_some_iff.mp executed
  have ready := served _ s (Machine.reachedBy_of_runWhere unshakenRun run)
    [.connects (.start 0), .connected (.start 0) (some (.other 0)) 0] 0 [] log
  simp [ofLog, after] at ready

end Standing

end Connection

end Fetchpp

import Fetchpp.Connection.Calls
import Fetchpp.Transport.Sequence

/-!
# A close that overtakes a connect

A close cancels what the connect waits for, but an operation that has already
succeeded goes on to the next one: the connect never looks at the running flag.
As long as what it waits for then fails, the connect fails too, and the socket
ends up closed.
-/

namespace Fetchpp

open Http

variable {Byte Response : Type}

/-- The connect does not get any further than it is allowed to on a transport
that is being closed: a resolve fails, and so does the operation it would end
with; the socket is not gone when it is set up for the tunnel. -/
def Point.Heeds (endpoint : SessionEndpoint) :
    Point Byte Response → Answer Byte → Prop
  | .resolving _ _, .resolved ec sni _ =>
      match endpoint with
      | .plain _ => ec ≠ none
      | _ => ec ≠ none ∨ sni ≠ none
  | .connecting, .connected ec noDelay _ =>
      match endpoint with
      | .plain _ => ec ≠ none
      | .secure _ => True
      | .tunnel _ => ec ≠ none ∨ noDelay = none
  | .handshaking, .ended ec _ => ec ≠ none
  | _, _ => True

instance (endpoint : SessionEndpoint) (point : Point Byte Response)
    (answer : Answer Byte) : Decidable (point.Heeds endpoint answer) := by
  unfold Point.Heeds
  split
  · split <;> infer_instance
  · split <;> infer_instance
  · infer_instance
  · infer_instance

theorem Point.Connects.heeded {codec : Codec Byte Response}
    {endpoint : SessionEndpoint} {t : Transport Byte}
    {point : Point Byte Response} {answer : Answer Byte}
    {next : Step Byte Response}
    (connects : point.Connects codec endpoint t answer next)
    (heeds : point.Heeds endpoint answer) :
    ((∃ error, next.2.Ends (some error)) ∨ ∃ later, next.2 = .await later) ∧
      next.1.isOpen = t.isOpen := by
  cases connects with
  | fails error ends like => exact ⟨.inl ⟨error, ends⟩, like.isOpen⟩
  | shakes => exact ⟨.inr ⟨_, rfl⟩, rfl⟩
  | asks => exact ⟨.inr ⟨_, rfl⟩, rfl⟩
  | shaken => exact (heeds rfl).elim
  | connects plain =>
      subst plain
      exact (heeds rfl).elim
  | opens named =>
      rcases named with rfl | ⟨target, rfl⟩
      · cases endpoint with
        | plain target => exact (heeds rfl).elim
        | secure target =>
            rcases heeds with failed | failed
            · exact (failed rfl).elim
            · exact (failed rfl).elim
        | tunnel tunnel =>
            rcases heeds with failed | failed
            · exact (failed rfl).elim
            · exact (failed rfl).elim
      · exact (heeds rfl).elim
  | escapes throws =>
      cases endpoint with
      | plain target => exact (heeds rfl).elim
      | secure target => exact (throws target rfl).elim
      | tunnel tunnel =>
          rcases heeds with failed | set
          · exact (failed rfl).elim
          · cases set
  | proxies => exact tunnelProxied_cases _ _ _

namespace Connection

open Session Http Lib

variable {codec : Codec Byte Response} {endpoint : SessionEndpoint}
  {request : PushId → Request}

def Call.isOvertaken (log : List (Call.Note Byte)) : Bool :=
  log.any (fun note =>
    match note with
    | .called (.close _ _) => true
    | _ => false)

abbrev Call.theConnect : Operation := .connect (.start 0)

/-- One connect, and one close that is called before the connect has
completed. -/
def Call.Races (s : State Byte Response × List (Call.Note Byte)) :
    Call.Event Byte → Prop
  | .call (.connect handler) => handler = 0 ∧ s.2 = []
  | .call (.close _ handler) => handler = 0 ∧
      Call.isOvertaken s.2 = false ∧ Call.theConnect ∈ s.1.outstanding
  | .call (.exchange _) => False
  | .answer _ _ => True
  | .complete call => call = none

/-- The close can close the socket, and once it has started the connect gets no
further. -/
def Call.Heeds (endpoint : SessionEndpoint)
    (s : State Byte Response × List (Call.Note Byte)) :
    Call.Event Byte → Prop
  | .call (.close graceful _) => graceful = .yes ∨
      endpoint.isTunnel = true ∨ s.1.transport.isOpen = false
  | .answer index answer =>
      Call.isOvertaken s.2 = true →
      match s.1.flights[index]? with
      | none => True
      | some flight => flight.point.Heeds endpoint answer
  | _ => True

instance (s : State Byte Response × List (Call.Note Byte)) :
    (event : Call.Event Byte) → Decidable (Call.Races s event)
  | .call (.connect handler) =>
      decidable_of_iff (handler = 0 ∧ s.2.isEmpty = true)
        (and_congr_right fun _ => List.isEmpty_iff)
  | .call (.close _ handler) => inferInstanceAs (Decidable (handler = 0 ∧
      Call.isOvertaken s.2 = false ∧ Call.theConnect ∈ s.1.outstanding))
  | .call (.exchange _) => inferInstanceAs (Decidable False)
  | .answer _ _ => inferInstanceAs (Decidable True)
  | .complete call => inferInstanceAs (Decidable (call = none))

instance (s : State Byte Response × List (Call.Note Byte)) :
    (event : Call.Event Byte) → Decidable (Call.Heeds endpoint s event)
  | .call (.close graceful _) => inferInstanceAs (Decidable (graceful = .yes ∨
      endpoint.isTunnel = true ∨ s.1.transport.isOpen = false))
  | .answer index answer =>
      have heeds : Decidable (match s.1.flights[index]? with
          | none => True
          | some flight => flight.point.Heeds endpoint answer) := by
        split <;> infer_instance
      inferInstanceAs (Decidable (Call.isOvertaken s.2 = true → _))
  | .call (.connect _) | .call (.exchange _) | .complete _ =>
      inferInstanceAs (Decidable True)

/-- The connect has failed or will be answered, and when both operations have
completed nothing is left of the connection. -/
structure Call.Overtaken (s : State Byte Response × List (Call.Note Byte)) :
    Prop where
  fails : ∀ ec, .completed Call.theConnect ec ∈ s.2 → ec ≠ none
  kept : Call.theConnect ∈ s.1.outstanding ∨
    ∃ ec, .completed Call.theConnect ec ∈ s.2
  closed : ∀ ec graceful ec', .completed Call.theConnect ec ∈ s.2 →
    .completed (.close graceful (.stop 0)) ec' ∈ s.2 →
    s.1.transport.isOpen = false ∧ s.1.transport.running = false

namespace Call

/-- What was called and what goes on, as long as no close was called. -/
inductive Alone (s : State Byte Response × List (Note Byte)) : Prop where
  | fresh (uncalled : s.2 = []) (waiting : s.1.waiting = [])
      (completing : s.1.completing = none)
  | waits (waiting : Waiting Byte Response) (only : s.1.waiting = [waiting])
      (operation : waiting.operation = theConnect)
      (kind : waiting.point.kind = .connect)
      (completing : s.1.completing = none) (called : s.2 ≠ [])
      (quiet : ∀ operation ec, .completed operation ec ∉ s.2)
  | gone (waiting : s.1.waiting = []) (called : s.2 ≠ [])

theorem isOvertaken_goingOn (t : Transport Byte) (point : Point Byte Response)
    (next : Step Byte Response) : isOvertaken (goingOn t point next) = false := by
  refine List.any_eq_false.mpr ?_
  intro note member
  cases note with
  | called call => exact (called_not_mem_goingOn t point next call member).elim
  | completed operation ec => simp
  | found buffer => simp
  | shakes stream => simp

theorem isOvertaken_append (log notes : List (Note Byte)) :
    isOvertaken (log ++ notes) = (isOvertaken log || isOvertaken notes) :=
  List.any_append

theorem Alone.connect {s : State Byte Response × List (Note Byte)}
    (alone : Alone s) (uncalled : s.2 = []) :
    Alone (start endpoint request s.1 (.connect 0),
      s.2 ++ [.called (.connect 0)]) := by
  have entered : s.1.Entered theConnect
      (Fetchpp.connect endpoint s.1.transport)
      (start endpoint request s.1 (.connect 0)) :=
    start_entered (.connect 0) s.1
  cases alone with
  | waits _ _ _ _ _ called => exact (called uncalled).elim
  | gone _ called => exact (called uncalled).elim
  | fresh _ waiting completing =>
      obtain ⟨domain, service, resolves⟩ :=
        @connect_resolves Byte Response endpoint s.1.transport
      obtain ⟨idle, after⟩ := entered.awaits completing resolves
      rw [waiting, List.nil_append] at after
      exact .waits _ after rfl rfl idle (by simp) (by simp [uncalled])

theorem Alone.answered {s : State Byte Response × List (Note Byte)}
    (alone : Alone s) {t : State Byte Response} {index : Nat}
    {answer : Answer Byte}
    (answered : Answered codec endpoint s.1 index answer t) :
    Alone (t, s.2 ++ goingOn s.1.transport answered.flight.point
      answered.next) := by
  have entered := answered.entered
  have perm := State.waiting_perm answered.member
  cases alone with
  | fresh _ waiting =>
      rw [waiting] at perm
      exact (List.not_perm_nil_cons _ _ perm).elim
  | gone waiting =>
      rw [waiting] at perm
      exact (List.not_perm_nil_cons _ _ perm).elim
  | waits waiting only operation kind completing called quiet =>
      rw [only] at perm
      obtain ⟨rfl, rest⟩ := List.cons.inj (List.singleton_perm.mp perm)
      have noOthers : State.waiting { s.1 with
          flights := s.1.flights.eraseIdx index
          completing := none } = [] := rest.symm
      have stays := (Point.connects answered.resumed kind).keeps.stays
      have called' : s.2 ++ goingOn s.1.transport answered.flight.point
          answered.next ≠ [] := List.append_ne_nil_of_left_ne_nil called _
      rcases entered.cases rfl with ⟨point, awaits, idle, after⟩ |
        ⟨_, after⟩
      · rw [noOthers, List.nil_append] at after
        rw [awaits] at stays
        refine .waits _ after operation stays idle called' ?_
        intro other ec member
        rcases List.mem_append.mp member with earlier | new
        · exact quiet other ec earlier
        · exact completed_not_mem_goingOn _ _ _ _ _ new
      · exact .gone (after.trans noOthers) called'

theorem Alone.completed {s : State Byte Response × List (Note Byte)}
    (alone : Alone s) {completing : Completing}
    (some : s.1.completing = some completing) (notes : List (Note Byte)) :
    Alone (State.handled completing.thenCancelTimer
      { s.1 with completing := none }, s.2 ++ notes) := by
  cases alone with
  | fresh _ _ none => simp [some] at none
  | waits _ _ _ _ none => simp [some] at none
  | gone waiting called =>
      refine .gone ?_ (List.append_ne_nil_of_left_ne_nil called _)
      exact (State.handled_waiting _ _).trans waiting

/-- A close waits; what it ends with is a closed socket. -/
structure Closes (t : Transport Byte) (waiting : Waiting Byte Response) :
    Prop where
  operation : ∃ graceful, waiting.operation = .close graceful (.stop 0)
  kind : waiting.point.kind = .close
  posted : waiting.point = .closePosted → t.isOpen = false
  shutting : waiting.point = .shuttingDown →
    waiting.stream = t.stream ∨ t.isOpen = false

/-- What goes on once the close was called. -/
structure Chased (s : State Byte Response × List (Note Byte)) : Prop where
  running : s.1.transport.running = false
  waiting : ∀ waiting ∈ s.1.waiting,
    (waiting.operation = theConnect ∧ waiting.point.kind = .connect) ∨
      Closes s.1.transport waiting
  connectEnds : ∀ completing, s.1.completing = some completing →
    completing.operation = theConnect → completing.ec ≠ none
  closeEnds : ∀ completing graceful, s.1.completing = some completing →
    completing.operation = .close graceful (.stop 0) →
    s.1.transport.isOpen = false
  fails : ∀ ec, .completed theConnect ec ∈ s.2 → ec ≠ none
  kept : theConnect ∈ s.1.outstanding ∨ ∃ ec, .completed theConnect ec ∈ s.2
  closed : ∀ graceful ec, .completed (.close graceful (.stop 0)) ec ∈ s.2 →
    s.1.transport.isOpen = false

theorem Chased.overtaken {s : State Byte Response × List (Note Byte)}
    (chased : Chased s) : Overtaken s where
  fails := chased.fails
  kept := chased.kept
  closed _ graceful ec' _ closed :=
    ⟨chased.closed graceful ec' closed, chased.running⟩

theorem Closes.of_same {t u : Transport Byte}
    {waiting : Waiting Byte Response} (closes : Closes t waiting)
    (stream : u.stream = t.stream)
    (opens : u.isOpen = true → t.isOpen = true) : Closes u waiting := by
  have notOpen : t.isOpen = false → u.isOpen = false := by
    intro closed
    cases isOpen : u.isOpen with
    | false => rfl
    | true => simp [closed] at opens; simp [opens] at isOpen
  refine ⟨closes.operation, closes.kind, ?_, ?_⟩
  · intro posted
    exact notOpen (closes.posted posted)
  · intro shutting
    rcases closes.shutting shutting with same | closed
    · exact .inl (same.trans stream.symm)
    · exact .inr (notOpen closed)

theorem Closes.of_closed {t u : Transport Byte}
    {waiting : Waiting Byte Response} (closes : Closes t waiting)
    (closed : u.isOpen = false) : Closes u waiting :=
  ⟨closes.operation, closes.kind, fun _ => closed, fun _ => .inr closed⟩

theorem start_close {s : State Byte Response} (idle : s.completing = none)
    {graceful : GracefulShutdown}
    (heeds : graceful = .yes ∨ endpoint.isTunnel = true ∨
      s.transport.isOpen = false)
    {t : State Byte Response}
    (started : t = start endpoint request s (.close graceful 0)) :
    t.transport.running = false ∧
    (∃ closes, t.waiting = s.waiting ++ closes ∧
      ∀ waiting ∈ closes, Closes t.transport waiting) ∧
    ∀ completing, t.completing = some completing →
      completing.operation = .close graceful (.stop 0) ∧
        t.transport.isOpen = false := by
  have entered : s.Entered (.close graceful (.stop 0))
      (Fetchpp.close endpoint graceful s.transport) t := by
    rw [started]
    exact start_entered (.close graceful 0) s
  have transport := entered.transport
  have running : t.transport.running = false := by
    rw [transport]
    exact close_running endpoint graceful s.transport
  rcases @close_waits Byte Response endpoint graceful s.transport with
    ⟨point, closing, posted, step⟩ | ⟨rfl, isOpen, step⟩
  · rw [step] at entered transport
    obtain ⟨none, after⟩ := entered.awaits idle rfl
    refine ⟨running, ⟨_, after, ?_⟩, by simp [none]⟩
    intro waiting member
    rw [List.mem_singleton.mp member, transport]
    exact ⟨⟨graceful, rfl⟩, closing, posted, fun _ => .inl rfl⟩
  · have tunnel : endpoint.isTunnel = true := by
      rcases heeds with other | tunnel | closed
      · cases other
      · exact tunnel
      · simp [isOpen] at closed
    have ends : (Fetchpp.close endpoint .no s.transport :
        Step Byte Response).Closes endpoint s.transport := by
      rw [step]
      exact closed_closes endpoint none rfl
    have closed : t.transport.isOpen = false := by
      rw [transport]
      exact ends.tunnel tunnel
    obtain ⟨ec, completes⟩ := ends.completes
    obtain ⟨⟨_, completing⟩, after⟩ := entered.ends (.inl completes)
    refine ⟨running, ⟨[], ?_, by simp⟩, ?_⟩
    · rw [after, List.append_nil]
    · intro other some
      rw [completing] at some
      exact ⟨(Option.some.inj some) ▸ rfl, closed⟩

theorem Alone.close {s : State Byte Response × List (Note Byte)}
    (alone : Alone s) (outstanding : theConnect ∈ s.1.outstanding)
    (idle : s.1.completing = none) {graceful : GracefulShutdown}
    (heeds : graceful = .yes ∨ endpoint.isTunnel = true ∨
      s.1.transport.isOpen = false) :
    Chased (start endpoint request s.1 (.close graceful 0),
      s.2 ++ [.called (.close graceful 0)]) := by
  obtain ⟨running, ⟨closes, after, closing⟩, ends⟩ :=
    @start_close _ _ endpoint request s.1 idle graceful heeds _ rfl
  cases alone with
  | fresh _ waiting => simp [State.outstanding, waiting, idle] at outstanding
  | gone waiting => simp [State.outstanding, waiting, idle] at outstanding
  | waits waiting only operation kind completing called quiet =>
      have unreported : ∀ other ec, .completed other ec ∉
          s.2 ++ [.called (.close graceful 0)] := by
        intro other ec member
        rcases List.mem_append.mp member with earlier | new
        · exact quiet other ec earlier
        · cases List.mem_singleton.mp new
      rw [only] at after
      refine
        { running := running
          waiting := ?_
          connectEnds := ?_
          closeEnds := fun other graceful some _ => (ends other some).2
          fails := fun ec member => (unreported _ ec member).elim
          kept := .inl ?_
          closed := fun _ ec member => (unreported _ ec member).elim }
      · intro other member
        rw [after] at member
        rcases List.mem_append.mp member with first | last
        · rw [List.mem_singleton.mp first]
          exact .inl ⟨operation, kind⟩
        · exact .inr (closing other last)
      · intro other some connects
        have closes := (ends other some).1
        rw [connects] at closes
        cases closes
      · have member : waiting ∈ [waiting] ++ closes := by simp
        rw [← after] at member
        rw [← operation]
        exact List.mem_append_left _ (List.mem_map_of_mem member)

theorem completed_mem_answered {log : List (Note Byte)} {t : Transport Byte}
    {point : Point Byte Response} {next : Step Byte Response}
    {operation : Operation} {ec : Option ErrorCode}
    (member : .completed operation ec ∈ log ++ goingOn t point next) :
    .completed operation ec ∈ log := by
  rcases List.mem_append.mp member with earlier | new
  · exact earlier
  · exact (completed_not_mem_goingOn _ _ _ _ _ new).elim

theorem Chased.running_answered
    {s : State Byte Response × List (Note Byte)} (chased : Chased s)
    {t : State Byte Response} {index : Nat} {answer : Answer Byte}
    (answered : Answered codec endpoint s.1 index answer t) :
    t.transport.running = false := by
  rw [answered.entered.transport, Point.resume_running answered.resumed]
  exact chased.running

theorem Chased.rest {s : State Byte Response × List (Note Byte)}
    (chased : Chased s) {t : State Byte Response} {index : Nat}
    {answer : Answer Byte} (answered : Answered codec endpoint s.1 index answer t)
    (keeps : ∀ waiting : Waiting Byte Response,
      Closes s.1.transport waiting → Closes t.transport waiting) :
    ∀ waiting ∈ State.waiting { s.1 with
        flights := s.1.flights.eraseIdx index
        completing := none },
      (waiting.operation = theConnect ∧ waiting.point.kind = .connect) ∨
        Closes t.transport waiting :=
  fun waiting member =>
    (chased.waiting waiting (answered.rest member)).imp_right (keeps waiting)

theorem Chased.connect_answered {s : State Byte Response × List (Note Byte)}
    (chased : Chased s) {t : State Byte Response} {index : Nat}
    {answer : Answer Byte}
    (answered : Answered codec endpoint s.1 index answer t)
    (connects : answered.flight.operation = theConnect)
    (kind : answered.flight.point.kind = .connect)
    (heeds : answered.flight.point.Heeds endpoint answer) :
    Chased (t, s.2 ++ goingOn s.1.transport answered.flight.point
      answered.next) := by
  have entered := answered.entered
  have step := Point.connects answered.resumed kind
  obtain ⟨goesOn, socket⟩ := step.heeded heeds
  have opens : t.transport.isOpen = true → s.1.transport.isOpen = true := by
    rw [entered.transport, socket]
    exact Transport.isOpen_of_afterAnswer
  have notOpen : s.1.transport.isOpen = false →
      t.transport.isOpen = false := by
    intro closed
    cases isOpen : t.transport.isOpen with
    | false => rfl
    | true => simp [opens isOpen] at closed
  have stream : t.transport.stream = s.1.transport.stream := by
    rw [entered.transport, step.keeps.stream, Transport.afterAnswer_stream]
  have rest := chased.rest answered fun _ closes =>
    closes.of_same stream opens
  have running := chased.running_answered answered
  have unfailed : ∀ ec, .completed theConnect ec ∈ s.2 ++
      goingOn s.1.transport answered.flight.point answered.next →
      ec ≠ none :=
    fun ec member => chased.fails ec (completed_mem_answered member)
  have closed : ∀ graceful ec, .completed (.close graceful (.stop 0)) ec ∈
      s.2 ++ goingOn s.1.transport answered.flight.point answered.next →
      t.transport.isOpen = false :=
    fun graceful ec member =>
      notOpen (chased.closed graceful ec (completed_mem_answered member))
  have stays := step.keeps.stays
  rw [connects] at entered
  rcases goesOn with ⟨error, fails⟩ | ⟨point, awaits⟩
  · obtain ⟨⟨_, some⟩, after⟩ := entered.ends fails
    refine ⟨running, ?_, ?_, ?_, unfailed, .inl ?_, closed⟩
    · intro waiting member
      rw [after] at member
      exact rest waiting member
    · intro completing same _
      rw [some] at same
      rw [← Option.some.inj same]
      simp
    · intro completing graceful same other
      rw [some] at same
      rw [← Option.some.inj same] at other
      cases other
    · simp [State.outstanding, some]
  · obtain ⟨none, after⟩ := entered.awaits rfl awaits
    rw [awaits] at stays
    refine ⟨running, ?_, by simp [none], by simp [none], unfailed, .inl ?_,
      closed⟩
    · intro waiting member
      rw [after] at member
      rcases List.mem_append.mp member with earlier | new
      · exact rest waiting earlier
      · rw [List.mem_singleton.mp new]
        exact .inl ⟨rfl, stays⟩
    · simp [State.outstanding, after]

theorem Chased.close_answered {s : State Byte Response × List (Note Byte)}
    (chased : Chased s) {t : State Byte Response} {index : Nat}
    {answer : Answer Byte}
    (answered : Answered codec endpoint s.1 index answer t)
    (closes : Closes s.1.transport answered.flight.toWaiting) :
    Chased (t, s.2 ++ goingOn s.1.transport answered.flight.point
      answered.next) := by
  have entered := answered.entered
  have perm := State.waiting_perm answered.member
  obtain ⟨graceful, operation⟩ := closes.operation
  obtain ⟨ec, u, closing, step⟩ := Point.closes answered.resumed closes.kind
  have notOpen : u.isOpen = false := by
    refine closing.closes ?_ ?_
    · intro point
      exact Transport.afterAnswer_closed (closes.posted point)
    · intro point
      rcases closes.shutting point with same | closed
      · exact .inl (same.trans (Transport.afterAnswer_stream _ _ _).symm)
      · exact .inr (Transport.afterAnswer_closed closed)
  have closed : t.transport.isOpen = false := by
    rw [entered.transport, step]
    exact closed_isOpen endpoint ec notOpen
  have completes : answered.next.2 = .complete ec := by
    rw [step, closed_completes]
  rw [operation] at entered
  obtain ⟨⟨_, some⟩, after⟩ := entered.ends (.inl completes)
  refine
    { running := chased.running_answered answered
      waiting := ?_
      connectEnds := ?_
      closeEnds := fun _ _ _ _ => closed
      fails := fun ec member => chased.fails ec (completed_mem_answered member)
      kept := ?_
      closed := fun _ _ _ => closed }
  · intro waiting member
    rw [after] at member
    exact chased.rest answered (fun _ closes => closes.of_closed closed) waiting
      member
  · intro completing same other
    rw [some] at same
    rw [← Option.some.inj same] at other
    cases other
  · rcases chased.kept with outstanding | ⟨ec, completed⟩
    · left
      simp only [State.outstanding, answered.idle, Option.toList_none,
        List.map_nil, List.append_nil] at outstanding
      rcases List.mem_cons.mp ((perm.map Waiting.operation).subset
          outstanding) with same | other
      · rw [operation] at same
        cases same
      · refine List.mem_append_left _ ?_
        rw [after]
        exact other
    · exact .inr ⟨ec, List.mem_append_left _ completed⟩

theorem Chased.completed {s : State Byte Response × List (Note Byte)}
    (chased : Chased s) {completing : Completing}
    (some : s.1.completing = some completing) :
    Chased (State.handled completing.thenCancelTimer
        { s.1 with completing := none },
      s.2 ++ [.completed completing.operation completing.ec]) := by
  have like : s.1.transport.Like (State.handled completing.thenCancelTimer
      { s.1 with completing := none }).transport := by
    unfold State.handled
    split
    · exact s.1.transport.like_cancelTimer
    · exact .refl _
  have waiting : (State.handled completing.thenCancelTimer
      { s.1 with completing := none }).waiting = s.1.waiting :=
    State.handled_waiting _ _
  have none : (State.handled completing.thenCancelTimer
      { s.1 with completing := none }).completing = none :=
    State.handled_completing _ _
  refine
    { running := like.running.trans chased.running
      waiting := ?_
      connectEnds := by simp
      closeEnds := by simp
      fails := ?_
      kept := ?_
      closed := ?_ }
  · intro other member
    rw [waiting] at member
    rcases chased.waiting other member with connect | closes
    · exact .inl connect
    · exact .inr (closes.of_same like.stream (fun isOpen =>
        like.isOpen.symm.trans isOpen))
  · intro ec member
    rcases List.mem_append.mp member with earlier | new
    · exact chased.fails ec earlier
    · obtain ⟨same, rfl⟩ := Note.completed.inj (List.mem_singleton.mp new)
      exact chased.connectEnds completing some same.symm
  · rcases chased.kept with outstanding | ⟨ec, completed⟩
    · rcases List.mem_append.mp outstanding with waits | ends
      · left
        rw [State.handled_outstanding]
        exact List.mem_append_left _ waits
      · right
        have same : theConnect = completing.operation := by
          simpa [some] using ends
        exact ⟨completing.ec, by simp [same]⟩
    · exact .inr ⟨ec, List.mem_append_left _ completed⟩
  · intro graceful ec member
    refine like.isOpen.trans ?_
    rcases List.mem_append.mp member with earlier | new
    · exact chased.closed graceful ec earlier
    · obtain ⟨same, rfl⟩ := Note.completed.inj (List.mem_singleton.mp new)
      exact chased.closeEnds completing graceful some same.symm

/-- The two stages of a run. -/
inductive Raced (s : State Byte Response × List (Note Byte)) : Prop where
  | alone (uncalled : isOvertaken s.2 = false) (alone : Alone s)
  | chased (called : isOvertaken s.2 = true) (chased : Chased s)

theorem Raced.answered {s : State Byte Response × List (Note Byte)}
    (raced : Raced s) {t : State Byte Response} {index : Nat}
    {answer : Answer Byte} (heeds : Heeds endpoint s (.answer index answer))
    (answered : Answered codec endpoint s.1 index answer t) :
    Raced (t, s.2 ++ goingOn s.1.transport answered.flight.point
      answered.next) := by
  cases raced with
  | alone uncalled alone =>
      refine .alone ?_ (alone.answered answered)
      simp [isOvertaken_append, uncalled, isOvertaken_goingOn]
  | chased called chased =>
      refine .chased ?_ ?_
      · simp [isOvertaken_append, called]
      · rcases chased.waiting _ answered.waited with
          ⟨operation, kind⟩ | closes
        · have heeded := heeds called
          rw [answered.member] at heeded
          exact chased.connect_answered answered operation kind heeded
        · exact chased.close_answered answered closes

theorem Raced.completed {s : State Byte Response × List (Note Byte)}
    (raced : Raced s) {completing : Completing}
    (some : s.1.completing = some completing) :
    Raced (State.handled completing.thenCancelTimer
        { s.1 with completing := none },
      s.2 ++ [.completed completing.operation completing.ec]) := by
  cases raced with
  | alone uncalled alone =>
      refine .alone ?_ (alone.completed some _)
      rw [isOvertaken_append, uncalled]
      simp [isOvertaken]
  | chased called chased =>
      refine .chased ?_ (chased.completed some)
      rw [isOvertaken_append, called]
      rfl

theorem Raced.step {s t : State Byte Response × List (Note Byte)}
    {transport : Transport Byte} {event : Call.Event Byte} (raced : Raced s)
    (races : Races s event) (heeds : Heeds endpoint s event)
    (stepped : (machine codec endpoint request transport).step s event =
      some t) : Raced t := by
  obtain ⟨underlying, log⟩ := Machine.logged_step stepped
  obtain ⟨after, notes⟩ := t
  dsimp only at underlying log
  subst log
  rcases step_cases underlying with ⟨call, rfl, idle, rfl⟩ |
    ⟨index, answer, rfl, ⟨answered⟩⟩ | ⟨completing, next, rfl, some, rfl⟩
  · cases call with
    | exchange handler => exact races.elim
    | connect handler =>
        obtain ⟨rfl, uncalled⟩ := races
        cases raced with
        | alone _ alone =>
            refine .alone ?_ (alone.connect uncalled)
            simp [uncalled, isOvertaken, Call.notes]
        | chased called => simp [uncalled, isOvertaken] at called
    | close graceful handler =>
        obtain ⟨rfl, uncalled, outstanding⟩ := races
        cases raced with
        | alone _ alone =>
            refine .chased ?_ (alone.close outstanding idle heeds)
            rw [isOvertaken_append]
            simp [isOvertaken, Call.notes]
        | chased called => simp [uncalled] at called
  · rw [answered.notes]
    exact raced.answered heeds answered
  · obtain rfl : next = none := races
    have notes : Call.notes codec endpoint s.1
        (.complete none : Call.Event Byte) =
        [.completed completing.operation completing.ec] := by
      simp [Call.notes, some]
    rw [notes]
    exact raced.completed some

/-- In every interleaving of a connect with a close that it heeds, the connect
fails, and nothing is left of the connection once both have completed. -/
theorem reached_overtaken {transport : Transport Byte}
    {s : State Byte Response × List (Note Byte)}
    (reached : (machine codec endpoint request transport).ReachedBy
      (fun before event => Races before event ∧ Heeds endpoint before event) s)
    (called : isOvertaken s.2 = true) : Overtaken s := by
  have raced : Raced s := by
    refine reached.invariant (.alone rfl (.fresh rfl rfl rfl)) ?_
    intro before event after _ raced allowed stepped
    exact raced.step allowed.1 allowed.2 stepped
  cases raced with
  | alone uncalled => simp [called] at uncalled
  | chased _ chased => exact chased.overtaken

/-- A close while the handshake waits; the handshake is cancelled. -/
def cancelledRun : List (Event Char) :=
  [.call (.connect 0), .answer 0 (.resolved none none true),
    .answer 0 (.connected none none true), .call (.close .yes 0),
    .answer 0 (.ended (some .operationAborted) false), .complete none,
    .answer 0 (.ended none false), .complete none]

theorem overtaken_of_cancelledRun :
    ∃ s, (machine textCodec (.secure ⟨"target", 443⟩) (fun _ => exampleRequest)
          {}).runWhere (fun before event => Races before event ∧
            Heeds (.secure ⟨"target", 443⟩) before event)
          ({}, []) cancelledRun = some s ∧
      .completed theConnect (some .operationAborted) ∈ s.2 ∧
      .completed (.close .yes (.stop 0)) none ∈ s.2 ∧ Overtaken s := by
  have executed : ((machine textCodec (.secure ⟨"target", 443⟩)
        (fun _ => exampleRequest) {}).runWhere (fun before event =>
          Races before event ∧ Heeds (.secure ⟨"target", 443⟩) before event)
        ({}, []) cancelledRun).map (fun s => s.2) =
      some [.called (.connect 0), .found [], .shakes 0,
        .called (.close .yes 0),
        .completed theConnect (some .operationAborted),
        .completed (.close .yes (.stop 0)) none] := by
    decide +kernel
  obtain ⟨s, run, log⟩ := Option.map_eq_some_iff.mp executed
  refine ⟨s, run, by simp [log], by simp [log], ?_⟩
  exact reached_overtaken (Machine.reachedBy_of_runWhere cancelledRun run)
    (by rw [log]; rfl)

/-- A close while the host name is resolved: the resolve has already succeeded,
so that it is not cancelled any more. -/
def unheededRun : List (Event Char) :=
  [.call (.connect 0), .call (.close .yes 0),
    .answer 0 (.resolved none none true), .answer 0 (.ended none false),
    .complete none, .answer 0 (.connected none none true), .complete none]

theorem unheededRun_not_overtaken :
    ¬∀ (endpoint : SessionEndpoint) (transport : Transport Char)
      (s : State Char TextResponse × List (Note Char)),
      (machine textCodec endpoint (fun _ => exampleRequest)
        transport).ReachedBy Races s →
      isOvertaken s.2 = true → Overtaken s := by
  intro overtaken
  have executed : ((machine textCodec (.plain ⟨"target", 80⟩)
        (fun _ => exampleRequest) {}).runWhere Races ({}, []) unheededRun).map
        (fun s => (s.2, s.1.transport.isOpen)) =
      some ([.called (.connect 0), .called (.close .yes 0),
        .completed (.close .yes (.stop 0)) none, .completed theConnect none],
        true) := by
    decide +kernel
  obtain ⟨s, run, facts⟩ := Option.map_eq_some_iff.mp executed
  obtain ⟨log, isOpen⟩ := Prod.mk.inj facts
  have stopped := overtaken _ _ s
    (Machine.reachedBy_of_runWhere unheededRun run) (by rw [log]; rfl)
  exact stopped.fails none (by simp [log]) rfl

end Call

end Connection

end Fetchpp

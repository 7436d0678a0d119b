import Fetchpp.Connection.Accounting

/-!
# What a close leaves

A close of any transport, graceful or not, is meant to leave a transport that
is stopped, holds no open socket and has no timer.  A close that is not graceful
only cancels what waits on an open socket; on a tunnel it then replaces the
stream, on a tcp or TLS transport the socket stays open.  The runs below begin
in any state of a transport in which no connect is outstanding.
-/

namespace Fetchpp

open Http

variable {Byte Response : Type}

/-- Nothing is opened, started or replaced by an open stream. -/
structure Transport.Shrinks (t u : Transport Byte) : Prop where
  isOpen : t.isOpen = false → u.isOpen = false
  stream : u.stream = t.stream ∨ u.isOpen = false
  running : t.running = false → u.running = false

namespace Transport.Shrinks

theorem of_like {t u : Transport Byte} (like : t.Like u) : t.Shrinks u where
  isOpen closed := like.isOpen.trans closed
  stream := .inl like.stream
  running stopped := like.running.trans stopped

theorem processOne (request : Request) (t : Transport Byte) :
    t.Shrinks (processOne request t : Step Byte Response).1 where
  isOpen closed := (processOne_isOpen request t).trans closed
  stream := .inl (Step.Keeps.processOne request t).stream
  running stopped := by
    simp [Fetchpp.processOne, stopped, Transport.cancelTimer]

theorem closed {t u : Transport Byte} (endpoint : SessionEndpoint)
    (ec : Option ErrorCode) (shrinks : t.Shrinks u) :
    t.Shrinks (closed endpoint ec u : Step Byte Response).1 where
  isOpen isClosed := closed_isOpen endpoint ec (shrinks.isOpen isClosed)
  stream := by
    cases tunnel : endpoint.isTunnel with
    | true =>
        right
        simp [Fetchpp.closed, tunnel, Transport.tunnelReset,
          Transport.newStream]
    | false =>
        simp only [Fetchpp.closed, tunnel]
        exact shrinks.stream
  running stopped := (closed_running _ _ _).trans (shrinks.running stopped)

theorem close (endpoint : SessionEndpoint) (graceful : GracefulShutdown)
    (t : Transport Byte) :
    t.Shrinks (close endpoint graceful t : Step Byte Response).1 := by
  have quiet : t.Shrinks (t.setRunning false).setupTimer :=
    ⟨id, .inl rfl, fun _ => rfl⟩
  rcases @close_waits Byte Response endpoint graceful t with
    ⟨point, _, _, waits⟩ | ⟨_, _, ends⟩
  · rw [waits]
    exact quiet
  · rw [ends]
    exact quiet.closed endpoint none

theorem afterAnswer (t : Transport Byte) (stream : Nat)
    (answer : Answer Byte) : t.Shrinks (t.afterAnswer stream answer) where
  isOpen closed := Transport.afterAnswer_closed closed
  stream := .inl (t.afterAnswer_stream stream answer)
  running stopped := (t.afterAnswer_running stream answer).trans stopped

theorem trans {t u v : Transport Byte} (first : t.Shrinks u)
    (second : u.Shrinks v) : t.Shrinks v where
  isOpen closed := second.isOpen (first.isOpen closed)
  stream := by
    rcases second.stream with same | closed
    · rcases first.stream with same' | closed
      · exact .inl (same.trans same')
      · exact .inr (second.isOpen closed)
    · exact .inr closed
  running stopped := second.running (first.running stopped)

theorem closing {stream : Nat} {t u : Transport Byte}
    {point : Point Byte Response} {ec : Option ErrorCode}
    (closing : point.Closing stream t ec u) : t.Shrinks u where
  isOpen closed := by
    cases isOpen : u.isOpen with
    | false => rfl
    | true => simp [closing.isOpen_of isOpen] at closed
  stream := .inl closing.stream_eq
  running stopped := closing.running.trans stopped

theorem resumed {codec : Codec Byte Response} {endpoint : SessionEndpoint}
    {stream : Nat} {t : Transport Byte} {point : Point Byte Response}
    {answer : Answer Byte} {next : Step Byte Response}
    (resumed : point.resume codec endpoint stream t answer = some next)
    (notConnect : point.kind ≠ .connect) : t.Shrinks next.1 := by
  have after := afterAnswer t stream answer
  cases kind : point.kind with
  | connect => exact (notConnect kind).elim
  | exchange =>
      obtain ⟨io, rfl⟩ := Point.exchanging_of_kind kind
      obtain ⟨result, u, _, running, same, isOpen, rfl⟩ :=
        Point.resume_exchanging resumed
      have keeps : (processOneResume codec result u).Keeps .exchange u :=
        Step.Keeps.processOneResume result u
      exact
        { isOpen := fun closed => (processOneResume_isOpen codec result
            u).trans (isOpen.trans (after.isOpen closed))
          stream := .inl (keeps.stream.trans same)
          running := fun stopped => (processOneResume_running codec result
            u).trans (running.trans stopped) }
  | close =>
      obtain ⟨ec, u, ends, rfl⟩ := Point.closes resumed kind
      exact (after.trans (.closing ends)).closed endpoint ec

end Transport.Shrinks

/-- What a close leaves. -/
structure Transport.Shut (t : Transport Byte) : Prop where
  isOpen : t.isOpen = false
  running : t.running = false
  timer : t.timerArmed = false

theorem closed_shut {endpoint : SessionEndpoint} {ec : Option ErrorCode}
    {t : Transport Byte} (isOpen : t.isOpen = false)
    (running : t.running = false) :
    (closed endpoint ec t : Step Byte Response).1.Shut where
  isOpen := closed_isOpen endpoint ec isOpen
  running := (closed_running endpoint ec t).trans running
  timer := by
    unfold closed
    split <;> rfl

namespace Connection

open Session Lib

variable {codec : Codec Byte Response} {endpoint : SessionEndpoint}
  {request : PushId → Request}

/-- What a close waits for closes the socket. -/
structure Waiting.ShutsDown (t : Transport Byte)
    (waiting : Waiting Byte Response) : Prop where
  kind : waiting.point.kind = .close
  posted : waiting.point = .closePosted → t.isOpen = false
  shutting : waiting.point = .shuttingDown →
    waiting.stream = t.stream ∨ t.isOpen = false

theorem Waiting.ShutsDown.shrink {t u : Transport Byte}
    {waiting : Waiting Byte Response} (shuts : waiting.ShutsDown t)
    (shrinks : t.Shrinks u) : waiting.ShutsDown u where
  kind := shuts.kind
  posted point := shrinks.isOpen (shuts.posted point)
  shutting point := by
    rcases shuts.shutting point with same | closed
    · rcases shrinks.stream with same' | closed
      · exact .inl (same.trans same'.symm)
      · exact .inr closed
    · exact .inr (shrinks.isOpen closed)

namespace Call

/-- The machine of a transport in any state it may be in. -/
def machineFrom (codec : Codec Byte Response) (endpoint : SessionEndpoint)
    (request : PushId → Request) (start : State Byte Response) :
    Lib.Machine (State Byte Response) (Event Byte) :=
  ⟨start, Call.step codec endpoint request⟩

/-- No connect is called, and handlers are told apart from those of the
operations that were outstanding at first. -/
def Undisturbed (start : State Byte Response) (event : Event Byte) : Prop :=
  ∀ call ∈ event.call?,
    call.kind ≠ .connect ∧ call.operation ∉ start.outstanding

instance (start : State Byte Response) (event : Event Byte) :
    Decidable (Undisturbed start event) :=
  inferInstanceAs (Decidable (∀ call ∈ event.call?,
    call.kind ≠ .connect ∧ call.operation ∉ start.outstanding))

/-- A close that is not graceful is called on a tunnel, or on a closed
socket. -/
def Event.shuts (endpoint : SessionEndpoint) (s : State Byte Response)
    (event : Event Byte) : Bool :=
  match event.call? with
  | some (.close .no _) => endpoint.isTunnel || !s.transport.isOpen
  | _ => true

/-- A close that was called since. -/
def ClosesSince (start : State Byte Response) (operation : Operation) : Prop :=
  (∃ graceful handler, operation = .close graceful (.stop handler)) ∧
    operation ∉ start.outstanding

/-- Every close that was called since and completes has shut the transport, and
after it every other one completes without an error. -/
def ShutSince (codec : Codec Byte Response) (endpoint : SessionEndpoint)
    (request : PushId → Request) (start s : State Byte Response) : Prop :=
  ∀ completing, s.completing = some completing →
    ClosesSince start completing.operation →
    s.transport.Shut ∧ ∀ t,
      (machineFrom codec endpoint request s).ReachedBy
        (fun _ event => Undisturbed s event) t →
      ∀ later, t.completing = some later → ClosesSince s later.operation →
        later.ec = none

/-- What goes on in a run without connects. -/
structure Shutting (start s : State Byte Response) : Prop where
  fits : Fitting s
  alone : ∀ handler, .connect (.start handler) ∉ s.outstanding
  running : ∀ operation ∈ s.outstanding, ClosesSince start operation →
    s.transport.running = false
  waiting : ∀ waiting ∈ s.waiting, ClosesSince start waiting.operation →
    waiting.ShutsDown s.transport
  ends : ∀ completing, s.completing = some completing →
    ClosesSince start completing.operation → s.transport.Shut

theorem Shutting.start {start : State Byte Response} (fits : Fitting start)
    (alone : ∀ handler, .connect (.start handler) ∉ start.outstanding) :
    Shutting start start where
  fits := fits
  alone := alone
  running operation member since := (since.2 member).elim
  waiting waiting member since :=
    (since.2 (List.mem_append_left _ (List.mem_map_of_mem member))).elim
  ends completing some since := by
    refine (since.2 (List.mem_append_right _ ?_)).elim
    simp [some]

namespace Shutting

variable {start s t : State Byte Response}

theorem lessen (shutting : Shutting start s) (transport : t.transport =
      s.transport) (waiting : ∀ waiting ∈ t.waiting, waiting ∈ s.waiting)
    (idle : t.completing = none) : Shutting start t := by
  have outstanding : ∀ operation ∈ t.outstanding,
      operation ∈ s.outstanding := by
    intro operation member
    simp only [State.outstanding, idle, Option.toList_none, List.map_nil,
      List.append_nil] at member
    obtain ⟨other, inside, rfl⟩ := List.mem_map.mp member
    exact List.mem_append_left _ (List.mem_map_of_mem (waiting other inside))
  exact
    { fits := fun other member => shutting.fits other (waiting other member)
      alone := fun handler member =>
        shutting.alone handler (outstanding _ member)
      running := fun operation member since => transport ▸
        shutting.running operation (outstanding operation member) since
      waiting := fun other member since => transport ▸
        shutting.waiting other (waiting other member) since
      ends := fun completing some => by simp [idle] at some }

theorem handled (shutting : Shutting start s) (cancelTimer : Bool) :
    Shutting start (s.handled cancelTimer) := by
  unfold State.handled
  split
  case isFalse => exact shutting
  case isTrue =>
    exact
      { fits := shutting.fits
        alone := shutting.alone
        running := shutting.running
        waiting := fun waiting member since =>
          (shutting.waiting waiting member since).shrink
            (.of_like s.transport.like_cancelTimer)
        ends := fun completing some since =>
          have shut := shutting.ends completing some since
          ⟨shut.isOpen, shut.running, rfl⟩ }

/-- How a close goes on: it waits to shut the transport, or has shut it. -/
structure GoesOn (operation : Operation) (next : Step Byte Response) :
    Prop where
  running : next.1.running = false
  waits : ∀ point, next.2 = .await point →
    Waiting.ShutsDown next.1 ⟨operation, point, next.1.stream⟩
  ends : (∀ point, next.2 ≠ .await point) → next.1.Shut

theorem entered (shutting : Shutting start s) (idle : s.completing = none)
    {call : Call} {next : Step Byte Response}
    (entered : s.Entered call.operation next t)
    (stays : next.2.StaysIn call.kind) (notConnect : call.kind ≠ .connect)
    (shrinks : s.transport.Shrinks next.1)
    (goesOn : ClosesSince start call.operation →
      GoesOn call.operation next) : Shutting start t := by
  have outstanding : ∀ operation ∈ t.outstanding,
      operation ∈ s.outstanding ∨ operation = call.operation := by
    intro operation member
    rcases entered.outstanding idle with same | added
    · exact .inl (same ▸ member)
    · rw [added] at member
      rcases List.mem_append.mp member with earlier | new
      · exact .inl earlier
      · exact .inr (List.mem_singleton.mp new)
  have transport := entered.transport
  refine
    { fits := fits_of_entered entered stays shutting.fits
      alone := ?_
      running := ?_
      waiting := ?_
      ends := ?_ }
  · intro handler member
    rcases outstanding _ member with earlier | same
    · exact shutting.alone handler earlier
    · cases call with
      | connect other => exact notConnect rfl
      | exchange other => cases same
      | close graceful other => cases same
  · intro operation member since
    rw [transport]
    rcases outstanding _ member with earlier | rfl
    · exact shrinks.running (shutting.running operation earlier since)
    · exact (goesOn since).running
  · intro waiting member since
    rw [transport]
    rcases entered.waits member with earlier | ⟨point, awaits, rfl⟩
    · exact (shutting.waiting waiting earlier since).shrink shrinks
    · exact (goesOn since).waits point awaits
  · intro completing some since
    rw [transport]
    rw [entered.completing, idle, Option.or_none] at some
    rw [State.completion_operation some] at since
    refine (goesOn since).ends ?_
    intro point awaits
    simp [State.completion, awaits] at some

theorem not_closesSince {call : Call} (notClose : call.kind ≠ .close) :
    ¬ ClosesSince start call.operation := by
  rintro ⟨⟨graceful, handler, closes⟩, _⟩
  cases call with
  | connect other => cases closes
  | exchange other => cases closes
  | close graceful' other => exact notClose rfl

theorem GoesOn.close {graceful : GracefulShutdown} {handler : Nat}
    {t : Transport Byte}
    (shuts : graceful = .no → endpoint.isTunnel = true ∨ t.isOpen = false) :
    GoesOn (.close graceful (.stop handler))
      (Fetchpp.close endpoint graceful t : Step Byte Response) := by
  rcases @close_waits Byte Response endpoint graceful t with
    ⟨point, kind, posted, waits⟩ | ⟨forced, isOpen, ends⟩
  · rw [waits]
    refine ⟨rfl, ?_, fun ended => (ended point rfl).elim⟩
    rintro other ⟨rfl⟩
    exact ⟨kind, posted, fun _ => .inl rfl⟩
  · rw [ends]
    have tunnel : endpoint.isTunnel = true := by
      rcases shuts forced with tunnel | closed
      · exact tunnel
      · simp [isOpen] at closed
    have running := @closed_running Byte Response endpoint none
      (t.setRunning false).setupTimer
    refine ⟨running, ?_, ?_⟩
    · intro point awaits
      rw [closed_completes] at awaits
      cases awaits
    · intro _
      refine ⟨?_, running, ?_⟩
      · exact (closed_closes endpoint none rfl).tunnel tunnel
      · unfold closed
        split <;> rfl

theorem first_shrinks {call : Call} (notConnect : call.kind ≠ .connect)
    (t : Transport Byte) :
    t.Shrinks (call.first endpoint request t : Step Byte Response).1 := by
  cases call with
  | connect handler => exact (notConnect rfl).elim
  | exchange handler => exact .processOne _ _
  | close graceful handler => exact .close endpoint graceful _

theorem call (shutting : Shutting start s) (idle : s.completing = none)
    {call : Call} (notConnect : call.kind ≠ .connect)
    (shuts : ∀ handler, call = .close .no handler →
      endpoint.isTunnel = true ∨ s.transport.isOpen = false) :
    Shutting start (call.start endpoint request s) := by
  refine shutting.entered idle (call.start_entered s) (call.first_stays _)
    notConnect (first_shrinks notConnect _) ?_
  intro since
  cases call with
  | connect handler => exact (notConnect rfl).elim
  | exchange handler =>
      have notClose : (Call.exchange handler).kind ≠ .close := nofun
      exact (not_closesSince notClose since).elim
  | close graceful handler =>
      refine .close ?_
      rintro rfl
      exact shuts handler rfl

theorem answered_kind (shutting : Shutting start s) {index : Nat}
    {answer : Answer Byte}
    (answered : Answered codec endpoint s index answer t) :
    ∃ call : Call, answered.flight.operation = call.operation ∧
      answered.flight.point.kind = call.kind ∧ call.kind ≠ .connect := by
  obtain ⟨call, operation, kind⟩ := shutting.fits _ answered.waited
  refine ⟨call, operation, kind, ?_⟩
  cases call with
  | connect handler =>
      have outstanding : answered.flight.operation ∈ s.outstanding :=
        List.mem_append_left _ (List.mem_map_of_mem answered.waited)
      rw [operation] at outstanding
      exact (shutting.alone handler outstanding).elim
  | exchange handler => nofun
  | close graceful handler => nofun

theorem answered (shutting : Shutting start s) {index : Nat}
    {answer : Answer Byte}
    (answered : Answered codec endpoint s index answer t) :
    Shutting start t := by
  have perm := State.waiting_perm answered.member
  have inside : answered.flight.toWaiting ∈ s.waiting :=
    perm.symm.subset List.mem_cons_self
  have outstanding : answered.flight.operation ∈ s.outstanding :=
    List.mem_append_left _ (List.mem_map_of_mem answered.waited)
  obtain ⟨call, operation, kind, notConnect⟩ := shutting.answered_kind answered
  have rest : Shutting start { s with
      flights := s.flights.eraseIdx index
      completing := none } := by
    refine shutting.lessen rfl ?_ rfl
    exact fun waiting member =>
      perm.symm.subset (List.mem_cons_of_mem _ member)
  have entered := answered.entered
  rw [operation] at entered
  have shrinks := Transport.Shrinks.resumed answered.resumed
    (kind ▸ notConnect)
  refine rest.entered rfl entered (kind ▸ resume_stays answered.resumed)
    notConnect shrinks ?_
  intro since
  have shuts := shutting.waiting _ inside (operation ▸ since)
  have running := shutting.running _ outstanding (operation ▸ since)
  obtain ⟨ec, u, closing, step⟩ := Point.closes answered.resumed shuts.kind
  have after := Transport.Shrinks.afterAnswer s.transport
    answered.flight.stream answer
  have notOpen : u.isOpen = false := by
    refine closing.closes (fun point => after.isOpen (shuts.posted point)) ?_
    intro point
    rcases shuts.shutting point with same | closed
    · exact .inl (same.trans (Transport.afterAnswer_stream _ _ _).symm)
    · exact .inr (after.isOpen closed)
  have stopped := (after.trans (.closing closing)).running running
  refine ⟨shrinks.running running, ?_, ?_⟩
  · intro point awaits
    rw [step, closed_completes] at awaits
    cases awaits
  · intro _
    rw [step]
    exact closed_shut notOpen stopped

theorem step (shutting : Shutting start s) {event : Event Byte}
    (undisturbed : Undisturbed start event)
    (shuts : event.shuts endpoint s = true)
    (stepped : Call.step codec endpoint request s event = some t) :
    Shutting start t := by
  have forced : ∀ call, event.call? = some call → ∀ handler,
      call = .close .no handler →
      endpoint.isTunnel = true ∨ s.transport.isOpen = false := by
    rintro call makes handler rfl
    simpa [Event.shuts, makes] using shuts
  rcases step_cases stepped with ⟨call, rfl, idle, rfl⟩ |
    ⟨index, answer, rfl, ⟨answered⟩⟩ | ⟨completing, next, rfl, _, rfl⟩
  · exact shutting.call idle (undisturbed call rfl).1 (forced call rfl)
  · exact shutting.answered answered
  · have rest : Shutting start { s with completing := none } :=
      shutting.lessen rfl (fun _ => id) rfl
    cases next with
    | none => exact rest.handled _
    | some call =>
        exact (rest.call rfl (undisturbed call rfl).1
          (forced call rfl)).handled _

theorem not_shut_of_forced {event : Event Byte}
    (undisturbed : Undisturbed start event)
    (forced : event.shuts endpoint s = false)
    (stepped : Call.step codec endpoint request s event = some t) :
    ∃ completing, t.completing = some completing ∧
      ClosesSince start completing.operation ∧ ¬ t.transport.Shut := by
  have calls : ∃ handler, event.call? = some (.close .no handler) ∧
      endpoint.isTunnel = false ∧ s.transport.isOpen = true := by
    unfold Event.shuts at forced
    split at forced
    case h_1 handler makes => exact ⟨handler, makes, by simpa using forced⟩
    case h_2 => cases forced
  obtain ⟨handler, makes, basic, isOpen⟩ := calls
  obtain ⟨cancelTimer, rfl⟩ := step_call stepped makes
  have ends : (Fetchpp.close endpoint .no s.transport :
      Step Byte Response) =
      (((s.transport.setRunning false).setupTimer).cancelTimer,
        .complete none) := by
    simp [Fetchpp.close, closed, Transport.setRunning, Transport.setupTimer,
      isOpen, basic]
  have entered := @start_entered _ _ endpoint request (.close .no handler)
    { s with completing := none }
  have completes : (Fetchpp.close endpoint .no s.transport :
      Step Byte Response).2.Ends none := .inl (congrArg Prod.snd ends)
  obtain ⟨⟨flag, completing⟩, _⟩ := entered.ends completes
  refine ⟨_, (State.handled_completing _ _).trans completing,
    ⟨⟨.no, handler, rfl⟩, (undisturbed _ makes).2⟩, ?_⟩
  intro shut
  have closed := shut.isOpen
  have transport : (Call.start endpoint request { s with completing := none }
      (.close .no handler)).transport = _ :=
    entered.transport.trans (congrArg Prod.fst ends)
  rw [State.handled_isOpen, transport] at closed
  simp [Transport.setRunning, Transport.setupTimer, Transport.cancelTimer,
    isOpen] at closed

end Shutting

/-- What goes on without connects once the socket is closed. -/
structure Settled (start s : State Byte Response) : Prop where
  shutting : Shutting start s
  isOpen : s.transport.isOpen = false
  posted : ∀ waiting ∈ s.waiting, ClosesSince start waiting.operation →
    waiting.point = .closePosted
  ends : ∀ completing, s.completing = some completing →
    ClosesSince start completing.operation → completing.ec = none

namespace Settled

variable {start s t : State Byte Response}

theorem lessen (settled : Settled start s) (transport : t.transport =
      s.transport) (waiting : ∀ waiting ∈ t.waiting, waiting ∈ s.waiting)
    (idle : t.completing = none) : Settled start t where
  shutting := settled.shutting.lessen transport waiting idle
  isOpen := transport ▸ settled.isOpen
  posted other member := settled.posted other (waiting other member)
  ends completing some := by simp [idle] at some

theorem entered (settled : Settled start s) (shutting : Shutting start t)
    (idle : s.completing = none) {operation : Operation}
    {next : Step Byte Response} (entered : s.Entered operation next t)
    (shrinks : s.transport.Shrinks next.1)
    (closes : ClosesSince start operation →
      next.2 = .await .closePosted ∨ next.2 = .complete none) :
    Settled start t where
  shutting := shutting
  isOpen := entered.transport ▸ shrinks.isOpen settled.isOpen
  posted waiting member since := by
    rcases entered.waits member with earlier | ⟨point, awaits, rfl⟩
    · exact settled.posted waiting earlier since
    · rcases closes since with posted | completes
      · rw [awaits] at posted
        exact Yield.await.inj posted
      · rw [awaits] at completes
        cases completes
  ends completing some since := by
    rw [entered.completing, idle, Option.or_none] at some
    rw [State.completion_operation some] at since
    rcases closes since with posted | completes
    · simp [State.completion, posted] at some
    · simp only [State.completion, completes, Option.some.injEq] at some
      rw [← some]

theorem call (settled : Settled start s) (idle : s.completing = none)
    {call : Call} (notConnect : call.kind ≠ .connect) :
    Settled start (call.start endpoint request s) := by
  refine settled.entered (settled.shutting.call idle notConnect
      (fun _ _ => .inr settled.isOpen)) idle (call.start_entered s)
    (Shutting.first_shrinks notConnect _) ?_
  intro since
  cases call with
  | connect handler => exact (notConnect rfl).elim
  | exchange handler =>
      have notClose : (Call.exchange handler).kind ≠ .close := nofun
      exact (Shutting.not_closesSince notClose since).elim
  | close graceful handler =>
      left
      rcases @close_cases Byte Response endpoint graceful s.transport with
        ⟨_, waits⟩ | ⟨isOpen, _⟩ | ⟨isOpen, _⟩
      · exact congrArg Prod.snd waits
      · simp [settled.isOpen] at isOpen
      · simp [settled.isOpen] at isOpen

theorem answered (settled : Settled start s) {index : Nat}
    {answer : Answer Byte}
    (answered : Answered codec endpoint s index answer t) :
    Settled start t := by
  have perm := State.waiting_perm answered.member
  obtain ⟨call, operation, kind, notConnect⟩ :=
    settled.shutting.answered_kind answered
  have rest : Settled start { s with
      flights := s.flights.eraseIdx index
      completing := none } := by
    refine settled.lessen rfl ?_ rfl
    exact fun waiting member =>
      perm.symm.subset (List.mem_cons_of_mem _ member)
  refine rest.entered (settled.shutting.answered answered) rfl answered.entered
    (.resumed answered.resumed (kind ▸ notConnect)) ?_
  intro since
  right
  have point := settled.posted _ (perm.symm.subset List.mem_cons_self) since
  have closing : answered.flight.point.kind = .close := by
    rw [point]
    rfl
  obtain ⟨ec, u, closing, step⟩ := Point.closes answered.resumed closing
  rw [point] at closing
  cases closing
  rw [step, closed_completes]

theorem handled (settled : Settled start s) (cancelTimer : Bool) :
    Settled start (s.handled cancelTimer) where
  shutting := settled.shutting.handled cancelTimer
  isOpen := by
    rw [State.handled_isOpen]
    exact settled.isOpen
  posted := by
    rw [State.handled_waiting]
    exact settled.posted
  ends := by
    rw [State.handled_completing]
    exact settled.ends

theorem step (settled : Settled start s) {event : Event Byte}
    (undisturbed : Undisturbed start event)
    (stepped : Call.step codec endpoint request s event = some t) :
    Settled start t := by
  rcases step_cases stepped with ⟨call, rfl, idle, rfl⟩ |
    ⟨index, answer, rfl, ⟨answered⟩⟩ | ⟨completing, next, rfl, _, rfl⟩
  · exact settled.call idle (undisturbed call rfl).1
  · exact settled.answered answered
  · have rest : Settled start { s with completing := none } :=
      settled.lessen rfl (fun _ => id) rfl
    cases next with
    | none => exact rest.handled _
    | some call => exact (rest.call rfl (undisturbed call rfl).1).handled _

end Settled

theorem reached_settled {start s : State Byte Response}
    (shutting : Shutting start start) (isOpen : start.transport.isOpen = false)
    (reached : (machineFrom codec endpoint request start).ReachedBy
      (fun _ event => Undisturbed start event) s) : Settled start s := by
  refine reached.invariant ?_ ?_
  · exact
      { shutting := shutting
        isOpen := isOpen
        posted := fun waiting member since => (since.2
          (List.mem_append_left _ (List.mem_map_of_mem member))).elim
        ends := fun completing some since => (since.2
          (List.mem_append_right _ (by
            have some' : start.completing = Option.some completing := some
            simp [some']))).elim }
  · intro before event after _ settled undisturbed stepped
    exact settled.step undisturbed stepped

theorem Shutting.shutSince {start s : State Byte Response}
    (shutting : Shutting start s) :
    ShutSince codec endpoint request start s := by
  intro completing some since
  have shut := shutting.ends completing some since
  refine ⟨shut, ?_⟩
  intro t reached later some' since'
  exact (reached_settled (.start shutting.fits shutting.alone) shut.isOpen
    reached).ends later some' since'

/-- From any state of a transport in which no connect is outstanding, and
without connects from then on, every close shuts the transport, and the closes
after it complete without an error, exactly as long as no close is forced on an
open socket of a tcp or TLS transport. -/
theorem reached_shut {transport : Transport Byte}
    {start s : State Byte Response} {log : List (Note Byte)}
    (reachable : (machine codec endpoint request transport).Reached
      (start, log))
    (alone : ∀ handler, .connect (.start handler) ∉ start.outstanding)
    (reached : (machineFrom codec endpoint request start).ReachedBy
      (fun before event => Undisturbed start event ∧
        event.shuts endpoint before = true) s) :
    ShutSince codec endpoint request start s ∧ ∀ event t,
      Undisturbed start event →
      (machineFrom codec endpoint request start).step s event = some t →
      (ShutSince codec endpoint request start t ↔
        event.shuts endpoint s = true) := by
  have shutting : Shutting start s := by
    refine reached.invariant (.start (reached_fits reachable) alone) ?_
    intro before event after _ shutting allowed stepped
    exact shutting.step allowed.1 allowed.2 stepped
  refine ⟨shutting.shutSince, ?_⟩
  intro event t undisturbed stepped
  constructor
  · intro shut
    by_contra forced
    rw [Bool.not_eq_true] at forced
    obtain ⟨completing, some, since, open'⟩ :=
      Shutting.not_shut_of_forced undisturbed forced stepped
    exact open' (shut completing some since).1
  · intro shuts
    exact (shutting.step undisturbed shuts stepped).shutSince

def connected : State Char TextResponse where
  transport := { isOpen := true }

/-- The shutdown fails with an error that the close reports. -/
def reportingRun : List (Event Char) :=
  [.call (.close .yes 0), .answer 0 (.ended (some (.other 1)) false)]

theorem shut_of_reportingRun :
    ∃ s, (machineFrom textCodec (.secure ⟨"target", 443⟩)
          (fun _ => exampleRequest) connected).runWhere (fun before event =>
            Undisturbed connected event ∧
              event.shuts (.secure ⟨"target", 443⟩) before = true)
          connected reportingRun = some s ∧
      s.completing = some ⟨.close .yes (.stop 0), some (.other 1), false⟩ ∧
      ShutSince textCodec (.secure ⟨"target", 443⟩) (fun _ => exampleRequest)
        connected s := by
  have executed : ((machineFrom textCodec (.secure ⟨"target", 443⟩)
        (fun _ => exampleRequest) connected).runWhere (fun before event =>
          Undisturbed connected event ∧
            event.shuts (.secure ⟨"target", 443⟩) before = true)
        connected reportingRun).map State.completing =
      some (some ⟨.close .yes (.stop 0), some (.other 1), false⟩) := by
    decide +kernel
  obtain ⟨s, run, completing⟩ := Option.map_eq_some_iff.mp executed
  have reachable : (machine textCodec (.secure ⟨"target", 443⟩)
      (fun _ => exampleRequest) connected.transport).Reached
        (connected, []) := .start
  exact ⟨s, run, completing, (reached_shut reachable (by simp [connected,
    State.outstanding, State.waiting]) (Machine.reachedBy_of_runWhere
      reportingRun run)).1⟩

/-- A forced close of a tcp transport leaves its socket open. -/
theorem forcedClose_not_shut :
    ¬∀ (endpoint : SessionEndpoint) (s : State Char TextResponse),
      (machineFrom textCodec endpoint (fun _ => exampleRequest)
        connected).ReachedBy (fun _ event => Undisturbed connected event) s →
      ShutSince textCodec endpoint (fun _ => exampleRequest) connected s := by
  intro shut
  have executed : ((machineFrom textCodec (.plain ⟨"target", 80⟩)
        (fun _ => exampleRequest) connected).runWhere (fun _ event =>
          Undisturbed connected event) connected [.call (.close .no 0)]).map
        (fun s => (s.completing, s.transport.isOpen)) =
      some (some ⟨.close .no (.stop 0), none, false⟩, true) := by
    decide +kernel
  obtain ⟨s, run, facts⟩ := Option.map_eq_some_iff.mp executed
  obtain ⟨completing, isOpen⟩ := Prod.mk.inj facts
  have since : ClosesSince connected (.close .no (.stop 0)) :=
    ⟨⟨.no, 0, rfl⟩, by simp [connected, State.outstanding, State.waiting]⟩
  have closed := (shut _ s (Machine.reachedBy_of_runWhere _ run) _ completing
    since).1.isOpen
  simp [isOpen] at closed

end Call

end Connection

end Fetchpp

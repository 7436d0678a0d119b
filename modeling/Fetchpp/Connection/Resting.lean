import Fetchpp.Connection.Accounting
import Fetchpp.Connection.Streams
import Fetchpp.Session.Resting

/-!
# Connections come to rest

A session on its transport comes to rest as well, if the network answers what
it is asked: every operation waits for a few answers, of which only the chunks
of a response are not counted.  As long as `TCP_NODELAY` can be set no
operation is lost, so that nothing is left waiting for an answer that never
comes, and every handler has been called.
-/

namespace Fetchpp

open Http Lib

variable {Byte Response : Type} {codec : Codec Byte Response}
  {endpoint : SessionEndpoint}

/-- Its completion counts, too. -/
def Point.rank : Point Byte Response → Nat
  | .exchanging (.writing _) => 4
  | .exchanging _ => 3
  | point => Connection.Call.stagesLeft point + 2

def Yield.rank : Yield Byte Response → Nat
  | .await point => point.rank
  | .escape => 0
  | _ => 1

/-- A chunk need not be the last one. -/
def Answer.effort : Answer Byte → Nat
  | .chunk _ => 0
  | _ => 1

theorem Point.two_le_rank (point : Point Byte Response) : 2 ≤ point.rank := by
  unfold rank
  split <;> omega

theorem Yield.Ends.rank_eq {ec : Option ErrorCode}
    {yield : Yield Byte Response} (ends : yield.Ends ec) : yield.rank = 1 := by
  rcases ends with rfl | rfl <;> rfl

theorem Answer.effort_le (answer : Answer Byte) : answer.effort ≤ 1 := by
  cases answer <;> simp [effort]

theorem tunnelProxied_pays {io : IoPoint Byte Response} {answer : Answer Byte}
    {buffer rest : List Byte} {result : IoResult Byte Response}
    (resumed : io.Resumed codec buffer answer rest result)
    (t : Transport Byte) :
    (tunnelProxied codec result t : Step Byte Response).2.rank +
      answer.effort ≤ (Point.proxying io : Point Byte Response).rank := by
  have ended : ∀ read : Except ErrorCode Response,
      (tunnelProxied codec (.ofExcept read) t : Step Byte Response).2.rank ≤
        3 := by
    intro read
    cases read with
    | error error => simp [IoResult.ofExcept, tunnelProxied, Yield.rank]
    | ok response =>
        simp only [IoResult.ofExcept, tunnelProxied]
        split <;> simp [Yield.rank, Point.rank, Connection.Call.stagesLeft]
  have failed : ∀ error : ErrorCode,
      (tunnelProxied codec (.failed error) t : Step Byte Response).2.rank = 1 :=
    fun _ => rfl
  have effort := answer.effort_le
  cases resumed with
  | @wrote request closes =>
      rcases startRead_cases codec request.skipsBody t.buffer with
        ⟨rest, parsed, _, reads⟩ | ⟨rest, read, _, reads⟩
      · simp only [tunnelProxied, reads]
        exact Nat.le_refl 5
      · simp only [tunnelProxied, reads]
        exact Nat.le_refl 5
  | writeFailed =>
      rw [failed]
      simp [Point.rank, Connection.Call.stagesLeft]
      omega
  | more fed => exact Nat.le_refl 4
  | @read skip parsed bytes rest read fed =>
      exact Nat.le_succ_of_le (ended read)
  | @finished skip parsed closes => exact Nat.succ_le_succ (ended _)
  | readFailed notEof =>
      rw [failed]
      simp [Point.rank, Connection.Call.stagesLeft]
      omega
  | @posted read closes => exact Nat.succ_le_succ (ended read)

theorem processOneResume_pays {io : IoPoint Byte Response}
    {answer : Answer Byte} {buffer rest : List Byte}
    {result : IoResult Byte Response}
    (resumed : io.Resumed codec buffer answer rest result)
    (t : Transport Byte) :
    (processOneResume codec result t : Step Byte Response).2.rank +
      answer.effort ≤ (Point.exchanging io : Point Byte Response).rank := by
  have ended : ∀ read : Except ErrorCode Response,
      (processOneResume codec (.ofExcept read) t : Step Byte Response).2.rank =
        1 := by
    intro read
    cases read with
    | error error => rfl
    | ok response =>
        simp only [IoResult.ofExcept, processOneResume]
        split <;> rfl
  have failed : ∀ error : ErrorCode,
      (processOneResume codec (.failed error) t : Step Byte Response).2.rank =
        1 := fun _ => rfl
  have effort := answer.effort_le
  have least := (Point.exchanging io : Point Byte Response).two_le_rank
  cases resumed with
  | @wrote request closes =>
      simp only [processOneResume]
      split
      · simp [Yield.rank, Answer.effort, Point.rank]
      · rcases startRead_cases codec request.skipsBody t.buffer with
          ⟨rest, parsed, _, reads⟩ | ⟨rest, read, _, reads⟩
        · rw [reads]
          exact Nat.le_refl 4
        · rw [reads]
          exact Nat.le_refl 4
  | writeFailed =>
      rw [failed]
      omega
  | more fed => exact Nat.le_refl 3
  | @read skip parsed bytes rest read fed =>
      rw [ended]
      omega
  | @finished skip parsed closes =>
      rw [ended]
      omega
  | readFailed notEof =>
      rw [failed]
      omega
  | @posted read closes =>
      rw [ended]
      omega

theorem Point.Connects.pays {t : Transport Byte} {point : Point Byte Response}
    {answer : Answer Byte} {next : Step Byte Response}
    (connects : point.Connects codec endpoint t answer next) :
    next.2.rank + answer.effort ≤ point.rank := by
  have effort := answer.effort_le
  have least := point.two_le_rank
  cases connects with
  | fails error ends =>
      rw [ends.rank_eq]
      omega
  | opens => exact Nat.le_refl 7
  | connects =>
      simp [Yield.rank, Answer.effort, rank, Connection.Call.stagesLeft]
  | shakes =>
      simp [Yield.rank, Answer.effort, rank, Connection.Call.stagesLeft]
  | asks => exact Nat.le_refl 6
  | escapes =>
      simp [Yield.rank, Answer.effort, rank, Connection.Call.stagesLeft]
  | proxies _ resumed => exact tunnelProxied_pays resumed _
  | shaken =>
      simp [Yield.rank, Answer.effort, rank, Connection.Call.stagesLeft]

/-- An answer brings an operation closer to its end, unless it is a chunk. -/
theorem Point.resume_pays {stream : Nat} {t : Transport Byte}
    {point : Point Byte Response} {answer : Answer Byte}
    {next : Step Byte Response}
    (resumed : point.resume codec endpoint stream t answer = some next) :
    next.2.rank + answer.effort ≤ point.rank := by
  cases kind : point.kind with
  | connect => exact (Point.connects resumed kind).pays
  | exchange =>
      obtain ⟨io, rfl⟩ := Point.exchanging_of_kind kind
      obtain ⟨result, u, answered, _, _, _, rfl⟩ :=
        Point.resume_exchanging resumed
      exact processOneResume_pays answered u
  | close =>
      obtain ⟨ec, u, _, rfl⟩ := Point.closes resumed kind
      have least := point.two_le_rank
      have effort := answer.effort_le
      rw [closed_completes]
      exact Nat.le_trans (Nat.add_le_add_left effort 1) least

theorem started_rank {request : Session.PushId → Request} {t : Transport Byte}
    {effect : Session.Effect} {operation : Session.Operation}
    {next : Step Byte Response}
    (begun : Connection.State.started endpoint request t effect =
      some (operation, next)) : next.2.rank ≤ 7 := by
  cases effect with
  | post handler => cases begun
  | wait stop => cases begun
  | cancelTimer => cases begun
  | connect caller =>
      cases begun
      cases endpoint <;> exact Nat.le_refl 7
  | exchange op =>
      cases begun
      simp only [processOne]
      split <;> simp [Yield.rank, Point.rank]
  | close graceful caller =>
      cases begun
      rcases @close_waits Byte Response endpoint graceful t with
        ⟨point, kind, _, waits⟩ | ⟨_, _, ends⟩
      · rw [waits]
        cases point with
        | resolving domain service => cases kind
        | connecting => cases kind
        | proxying io => cases kind
        | handshaking => cases kind
        | exchanging io => cases kind
        | closePosted => simp [Yield.rank, Point.rank, Connection.Call.stagesLeft]
        | tcpClosing => simp [Yield.rank, Point.rank, Connection.Call.stagesLeft]
        | shuttingDown =>
            simp [Yield.rank, Point.rank, Connection.Call.stagesLeft]
      · rw [ends, closed_completes]
        simp [Yield.rank]

namespace Connection

open Session

variable {request : PushId → Request}

namespace State

/-- What the operations on the transport still go through. -/
def transit (s : State Byte Response) : Nat :=
  (s.waiting.map (fun waiting => waiting.point.rank)).sum +
    s.completing.toList.length

def potential (s : State Byte Response) : Nat :=
  8 * s.session.potential + s.transit

@[simp] theorem handled_transit (cancelTimer : Bool)
    (s : State Byte Response) :
    (s.handled cancelTimer).transit = s.transit := by
  simp [transit]

theorem Entered.transit_eq {s t : State Byte Response} {operation : Operation}
    {next : Step Byte Response} (entered : s.Entered operation next t)
    (idle : s.completing = none) : t.transit = s.transit + next.2.rank := by
  simp only [transit, entered.waiting, entered.completing, idle,
    Option.or_none, List.map_append, List.sum_append]
  obtain ⟨transport, yield⟩ := next
  cases yield <;> simp [entering, completion, Yield.rank]

theorem resumed_transit_le (session : Session.State)
    (s : State Byte Response) : (s.resumed session).transit ≤ s.transit :=
  Nat.le_add_right _ _

end State

def Event.isChunk : Event Byte → Bool
  | .answer _ (.chunk _) => true
  | _ => false

/-- `TCP_NODELAY` can be set on a socket that was connected, or the connect
asks for the error. -/
def Event.setsNoDelay : SessionEndpoint → Event Byte → Bool
  | .secure _, _ => true
  | _, .answer _ (.connected none (some _) _) => false
  | _, _ => true

theorem Event.setsNoDelay_eq_false {event : Event Byte} :
    event.setsNoDelay endpoint = false ↔
      (∃ index error leavesOpen,
        event = .answer index (.connected none (some error) leavesOpen)) ∧
      ∀ target, endpoint ≠ .secure target := by
  constructor
  · intro throws
    unfold setsNoDelay at throws
    split at throws
    case h_1 => cases throws
    case h_2 notSecure => exact ⟨⟨_, _, _, rfl⟩, notSecure⟩
    case h_3 => cases throws
  · rintro ⟨⟨index, error, leavesOpen, rfl⟩, notSecure⟩
    cases endpoint with
    | secure target => exact (notSecure target rfl).elim
    | plain target => rfl
    | tunnel tunnel => rfl

/-- `TCP_NODELAY` can be set on a socket that was connected. -/
def Event.noDelaySet : Event Byte → Bool
  | .answer _ (.connected none (some _) _) => false
  | _ => true

theorem Event.setsNoDelay_of_set {event : Event Byte}
    (set : event.noDelaySet = true) (endpoint : SessionEndpoint) :
    event.setsNoDelay endpoint = true := by
  unfold setsNoDelay
  split
  · rfl
  · cases set
  · rfl

/-- The event is neither a call nor a part of a response. -/
def Event.isOwn (endpoint : SessionEndpoint) (event : Event Byte) : Bool :=
  !event.isCall && !event.isChunk && event.setsNoDelay endpoint

def Event.cost : Event Byte → Nat
  | .push => 72
  | .start => 15
  | .stop _ => 23
  | _ => 0

def Event.effort (event : Event Byte) : Nat :=
  if event.isCall || event.isChunk then 0 else 1

theorem Event.own_free (event : Event Byte)
    (own : event.isOwn endpoint = true) : event.cost < event.effort := by
  simp only [isOwn, Bool.and_eq_true, Bool.not_eq_true'] at own
  cases event <;> simp_all [isCall, cost, effort]

theorem Event.cost_eq_zero (event : Event Byte)
    (own : event.isCall = false) : event.cost = 0 := by
  cases event <;> first | rfl | cases own

theorem Event.label_cost {s : State Byte Response} {event : Event Byte}
    {event' : Session.Event} (label : event.label s = some event') :
    event.cost = 72 * event'.pushes + 15 * event'.starts +
      23 * event'.stops := by
  cases event with
  | answer index answer => cases label
  | complete =>
      obtain ⟨completing, _, rfl⟩ := Option.map_eq_some_iff.mp label
      rfl
  | push =>
      cases label
      rfl
  | start =>
      cases label
      rfl
  | stop graceful =>
      cases label
      rfl
  | post handler =>
      cases label
      rfl
  | timer waiter cancelled ec =>
      cases label
      rfl

/-- What a handler of the session may start is paid for. -/
theorem Event.label_price {s : State Byte Response} {event : Event Byte}
    {event' : Session.Event} (label : event.label s = some event') :
    (event' = .push ∧ event.cost = 8 * event'.cost ∧ event.effort = 0) ∨
      8 * event'.cost + event.effort + 7 ≤
        event.cost + 8 * event'.effort := by
  cases event with
  | push =>
      cases label
      exact .inl ⟨rfl, rfl, rfl⟩
  | start =>
      cases label
      exact .inr (Nat.le_refl 15)
  | stop graceful =>
      cases label
      exact .inr (Nat.le_refl 23)
  | post handler =>
      cases label
      exact .inr (Nat.le_refl 8)
  | timer waiter cancelled ec =>
      cases label
      exact .inr (Nat.le_refl 8)
  | answer index answer => cases label
  | complete =>
      obtain ⟨completing, _, rfl⟩ := Option.map_eq_some_iff.mp label
      exact .inr (Nat.le_refl 8)

theorem Answered.pays {s t : State Byte Response} {index : Nat}
    {answer : Answer Byte}
    (answered : Answered codec endpoint s index answer t) :
    t.potential + answer.effort ≤ s.potential := by
  have entered := answered.entered.transit_eq rfl
  have paid := Point.resume_pays answered.resumed
  have taken := ((State.waiting_perm answered.member).map
    (fun waiting => waiting.point.rank)).sum_nat
  rw [List.map_cons, List.sum_cons] at taken
  have session := answered.entered.session
  simp only [State.potential, session, entered]
  simp only [State.transit, State.waiting, answered.idle] at taken ⊢
  simp only [Option.toList_none, List.length_nil]
  omega

theorem Handled.transit_le {s t : State Byte Response} {event : Session.Event}
    (points : s.session.AtPoints)
    (handled : Handled endpoint request s event t) :
    t.transit ≤ s.transit + 7 ∧ (event = .push → t.transit ≤ s.transit) := by
  have dropped := State.resumed_transit_le handled.session s
  rcases handled.cases points with quiet |
    ⟨effect, operation, next, starts, _, begun, launched⟩
  · rw [quiet, State.handled_transit]
    exact ⟨Nat.le_add_right_of_le dropped, fun _ => dropped⟩
  · have entered := (State.launch_entered (s := s.resumed handled.session)
      begun).transit_eq rfl
    have rank := started_rank begun
    rw [launched, State.handled_transit, entered]
    refine ⟨Nat.add_le_add dropped rank, ?_⟩
    rintro rfl
    cases starts with
    | elsewhere isLocal =>
        cases effect <;> simp_all [Effect.isLocal, State.started]

theorem potential_pays :
    Machine.Potential (machine codec endpoint request)
      (machine codec endpoint request).Reached (fun _ => Event.cost)
      Event.effort State.potential where
  kept := fun reached stepped => reached.step trivial stepped
  pays := by
    intro before event after reached stepped
    rcases step_cases stepped with ⟨index, answer, rfl, ⟨answered⟩⟩ |
      ⟨event', label, ⟨handled⟩⟩
    · have paid := answered.pays
      cases answer <;> simpa [Event.effort, Event.isCall, Event.isChunk,
        Event.cost, Answer.effort] using paid
    · have points := reached_atPoints (reached_session reached)
      obtain ⟨transit, quiet⟩ := handled.transit_le points
      have session := Session.potential_pays.pays trivial handled.stepped
      rw [← handled.session_eq] at session
      simp only [State.potential]
      rcases event.label_price label with ⟨push, cost, effort⟩ | price
      · have same := quiet push
        omega
      · omega

def onTransport : Operation → Bool
  | .wait _ _ => false
  | _ => true

theorem countP_perform (s : Session.State) (effect : Effect) :
    (s.perform effect).operations.countP onTransport =
      s.operations.countP onTransport +
        [effect].countP (fun effect => !effect.isLocal) := by
  have cancelled : onTransport ∘ Operation.cancelWait = onTransport := by
    funext operation
    cases operation <;> rfl
  cases effect <;>
    simp [Session.State.perform, List.countP_map, cancelled, onTransport,
      Effect.isLocal]

theorem countP_apply (s : Session.State) (outcome : Outcome) :
    (s.apply outcome).operations.countP onTransport =
      s.operations.countP onTransport +
        outcome.2.countP (fun effect => !effect.isLocal) := by
  obtain ⟨core, effects⟩ := outcome
  have added : ∀ t : Session.State,
      (effects.foldl Session.State.perform t).operations.countP onTransport =
        t.operations.countP onTransport +
          effects.countP (fun effect => !effect.isLocal) := by
    induction effects with
    | nil => exact fun _ => rfl
    | cons effect effects induction =>
        intro t
        rw [List.foldl_cons, induction, countP_perform, Nat.add_assoc,
          ← List.countP_append, List.singleton_append]
  exact added { s with core := core }

theorem started_ne_escape {t : Transport Byte} {effect : Effect}
    {operation : Operation} {next : Step Byte Response}
    (begun : State.started endpoint request t effect =
      some (operation, next)) : next.2 ≠ .escape := by
  cases effect with
  | post handler => cases begun
  | wait stop => cases begun
  | cancelTimer => cases begun
  | connect caller =>
      cases begun
      exact @Call.first_ne_escape _ _ endpoint request (.connect 0) t
  | exchange op =>
      cases begun
      exact @Call.first_ne_escape _ _ endpoint request (.exchange op.task) t
  | close graceful caller =>
      cases begun
      exact @Call.first_ne_escape _ _ endpoint request (.close graceful 0) t

theorem escape_of_resume {stream : Nat} {t : Transport Byte}
    {point : Point Byte Response} {answer : Answer Byte}
    {next : Step Byte Response}
    (resumed : point.resume codec endpoint stream t answer = some next)
    (escapes : next.2 = .escape) (index : Nat) :
    (Event.answer index answer).setsNoDelay endpoint = false := by
  cases kind : point.kind with
  | connect =>
      obtain ⟨⟨error, leavesOpen, rfl⟩, notSecure⟩ :=
        Call.escape_of_connects (Point.connects resumed kind) escapes
      exact Event.setsNoDelay_eq_false.mpr ⟨⟨index, _, _, rfl⟩, notSecure⟩
  | exchange =>
      obtain ⟨io, rfl⟩ := Point.exchanging_of_kind kind
      obtain ⟨result, u, _, _, _, _, rfl⟩ := Point.resume_exchanging resumed
      unfold processOneResume at escapes
      cases result with
      | pending io => cases escapes
      | failed error => cases escapes
      | wrote request =>
          dsimp only at escapes
          split at escapes <;> cases escapes
      | read response =>
          dsimp only at escapes
          split at escapes <;> cases escapes
  | close =>
      obtain ⟨ec, u, _, rfl⟩ := Point.closes resumed kind
      rw [closed_completes] at escapes
      cases escapes

theorem State.Entered.outstanding_length {s t : State Byte Response}
    {operation : Operation} {next : Step Byte Response}
    (entered : s.Entered operation next t) (idle : s.completing = none)
    (stays : next.2 ≠ .escape) :
    t.outstanding.length = s.outstanding.length + 1 := by
  rw [entered.outstanding_eq idle]
  split
  case h_1 escapes => exact (stays escapes).elim
  case h_2 => rw [List.length_append, List.length_singleton]

/-- The session waits for no more than the transport carries out. -/
def State.Kept (s : State Byte Response) : Prop :=
  s.session.operations.countP onTransport = s.outstanding.length

theorem State.Kept.answered {s t : State Byte Response} (kept : s.Kept)
    {index : Nat} {answer : Answer Byte}
    (answered : Answered codec endpoint s index answer t)
    (stays : answered.next.2 ≠ .escape) : t.Kept := by
  have entered := answered.entered
  have length := entered.outstanding_length rfl stays
  have taken := (State.waiting_perm answered.member).length_eq
  rw [State.Kept, entered.session, length]
  rw [State.Kept] at kept
  simp only [State.outstanding, State.waiting, answered.idle, List.length_cons,
    List.length_append, List.length_map, Option.toList_none, List.length_nil]
    at kept taken ⊢
  omega

theorem Handled.outstanding_length {s t : State Byte Response}
    {event : Session.Event} (points : s.session.AtPoints)
    (handled : Handled endpoint request s event t) :
    t.outstanding.length = s.waiting.length +
      (event.outcome s.session.core).2.countP
        (fun effect => !effect.isLocal) := by
  have resumed : (s.resumed handled.session).outstanding.length =
      s.waiting.length := by
    rw [State.outstanding_resumed, List.length_map]
  have point := points.event (step_eq handled.stepped).1
  rw [congrArg State.outstanding handled.after, State.handled_outstanding]
  rcases event.effects point s.session.core with none | ⟨effect, one, _⟩
  · rw [none]
    exact resumed
  · rw [one]
    cases begun : State.started endpoint request s.transport effect with
    | some launched =>
        have entered := State.launch_entered
          (s := s.resumed handled.session) begun
        have length := entered.outstanding_length rfl (started_ne_escape begun)
        have abroad : effect.isLocal = false := by
          cases effect <;> first | rfl | cases begun
        rw [List.foldl_cons, List.foldl_nil, length, resumed]
        simp [abroad]
    | none =>
        have isLocal : effect.isLocal = true := by
          cases effect <;> first | rfl | simp [State.started] at begun
        rw [List.foldl_cons, List.foldl_nil, State.launch_local isLocal,
          resumed]
        simp [isLocal]

theorem State.Kept.taken {s t : State Byte Response} (kept : s.Kept)
    (linked : s.Linked) {event : Session.Event}
    (handled : Handled endpoint request s event t) :
    (event.taken s.session).operations.countP onTransport =
      s.waiting.length := by
  have enabled := (step_eq handled.stepped).1
  rw [State.Kept, State.outstanding, List.length_append, List.length_map,
    List.length_map] at kept
  have alone : (∀ operation ec isOpen, event ≠ .resume operation ec isOpen) →
      s.session.operations.countP onTransport = s.waiting.length := by
    intro other
    cases idle : s.completing with
    | none => simpa [idle] using kept
    | some completing => exact (other _ _ _ (handled.caller _ idle)).elim
  cases event with
  | push => exact alone (by simp)
  | start => exact alone (by simp)
  | stop graceful => exact alone (by simp)
  | post handler isOpen => exact alone (by simp)
  | resume operation ec isOpen =>
      have split := (List.perm_cons_erase enabled.1).countP_eq onTransport
      rw [List.countP_cons] at split
      simp only [Event.taken]
      cases idle : s.completing with
      | none =>
          obtain ⟨waiter, cancelled, rfl⟩ := handled.alone idle _ _ _ rfl
          simp [idle, onTransport] at kept split ⊢
          omega
      | some completing =>
          have same := handled.caller completing idle
          simp only [Session.Event.resume.injEq] at same
          have transported : onTransport operation = true := by
            cases operation with
            | wait waiter cancelled =>
                refine (linked.notWait waiter cancelled ?_).elim
                rw [same.1]
                exact List.mem_append_right _ (by simp [idle])
            | connect caller => rfl
            | exchange op => rfl
            | close graceful caller => rfl
          simp [idle, transported] at kept split ⊢
          omega

theorem State.Kept.handled {s t : State Byte Response} (kept : s.Kept)
    (linked : s.Linked) (points : s.session.AtPoints) {event : Session.Event}
    (handled : Handled endpoint request s event t) : t.Kept := by
  have taken := kept.taken linked handled
  rw [State.Kept, handled.session_eq, (step_eq handled.stepped).2,
    countP_apply, taken, handled.outstanding_length points]

theorem reached_kept {s : State Byte Response}
    (reached : (machine codec endpoint request).ReachedBy
      (fun _ event => event.setsNoDelay endpoint = true) s) : s.Kept := by
  induction reached with
  | start => rfl
  | step earlier sets stepped kept =>
      rcases step_cases stepped with ⟨index, answer, rfl, ⟨answered⟩⟩ |
        ⟨_, _, ⟨handled⟩⟩
      · refine kept.answered answered fun escapes => ?_
        rw [escape_of_resume answered.resumed escapes index] at sets
        cases sets
      · exact kept.handled (reached_linked earlier.reached)
          (reached_atPoints (reached_session earlier.reached)) handled

/-- Only some transports come to the point. -/
def suits (endpoint : SessionEndpoint) : Point Byte Response → Bool
  | .proxying _ => endpoint.isTunnel
  | .handshaking =>
      match endpoint with
      | .plain _ => false
      | _ => true
  | _ => true

theorem suits_of_tunnel {tunnel : TunnelEndpoint}
    (point : Point Byte Response) : suits (.tunnel tunnel) point = true := by
  cases point <;> rfl

theorem suits_of_resume {stream : Nat} {t : Transport Byte}
    {point later : Point Byte Response} {answer : Answer Byte}
    {next : Step Byte Response}
    (resumed : point.resume codec endpoint stream t answer = some next)
    (awaits : next.2 = .await later) : suits endpoint later = true := by
  cases kind : point.kind with
  | connect =>
      cases Point.connects resumed kind with
      | fails error ends =>
          rcases ends with ends | ends
          · rw [ends] at awaits
            cases awaits
          · rw [ends] at awaits
            cases awaits
      | opens =>
          cases awaits
          rfl
      | connects => cases awaits
      | shakes secure =>
          cases awaits
          rw [secure]
          rfl
      | asks tunnels =>
          rw [tunnels]
          exact suits_of_tunnel later
      | escapes => cases awaits
      | proxies tunnels =>
          rw [tunnels]
          exact suits_of_tunnel later
      | shaken => cases awaits
  | exchange =>
      rcases Point.resume_cases resumed with ⟨_, keeps⟩ | ⟨closing, _⟩
      · have stays := keeps.stays
        rw [awaits, kind] at stays
        obtain ⟨io, rfl⟩ := Point.exchanging_of_kind stays
        rfl
      · rw [kind] at closing
        cases closing
  | close =>
      obtain ⟨ec, u, _, rfl⟩ := Point.closes resumed kind
      rw [closed_completes] at awaits
      cases awaits

theorem suits_of_started {t : Transport Byte} {effect : Effect}
    {operation : Operation} {next : Step Byte Response}
    {later : Point Byte Response}
    (begun : State.started endpoint request t effect = some (operation, next))
    (awaits : next.2 = .await later) : suits endpoint later = true := by
  cases effect with
  | post handler => cases begun
  | wait stop => cases begun
  | cancelTimer => cases begun
  | connect caller =>
      cases begun
      cases endpoint <;> cases awaits <;> rfl
  | exchange op =>
      cases begun
      simp only [processOne] at awaits
      split at awaits <;> cases awaits
      rfl
  | close graceful caller =>
      cases begun
      rcases @close_waits Byte Response endpoint graceful t with
        ⟨point, kind, _, waits⟩ | ⟨_, _, ends⟩
      · rw [waits] at awaits
        cases awaits
        cases later <;> first | rfl | cases kind
      · rw [ends, closed_completes] at awaits
        cases awaits

/-- An answer that ends what is awaited. -/
def ending : Point Byte Response → Answer Byte
  | .resolving _ _ => .resolved none none true
  | .connecting => .connected none none true
  | .proxying (.reading _ _) => .ended (some .eof) false
  | .exchanging (.reading _ _) => .ended (some .eof) false
  | _ => .ended none false

theorem resume_ending {point : Point Byte Response} (stream : Nat)
    (t : Transport Byte) (suitable : suits endpoint point = true) :
    ∃ next, point.resume codec endpoint stream t (ending point) =
      some next := by
  cases point with
  | resolving domain service => cases endpoint <;> exact ⟨_, rfl⟩
  | connecting => cases endpoint <;> exact ⟨_, rfl⟩
  | handshaking =>
      cases endpoint with
      | plain target => cases suitable
      | secure target => exact ⟨_, rfl⟩
      | tunnel tunnel => exact ⟨_, rfl⟩
  | proxying io =>
      cases endpoint with
      | plain target => cases suitable
      | secure target => cases suitable
      | tunnel tunnel => cases io <;> exact ⟨_, rfl⟩
  | exchanging io => cases io <;> exact ⟨_, rfl⟩
  | closePosted => exact ⟨_, rfl⟩
  | tcpClosing => exact ⟨_, rfl⟩
  | shuttingDown => exact ⟨_, rfl⟩

/-- What holds where an operation starts to wait, and goes on to hold when it
is resumed, holds of everything that waits. -/
theorem reached_waits {Holds : Operation → Point Byte Response → Prop}
    (resumes : ∀ {operation : Operation} {point later : Point Byte Response}
      {stream : Nat} {t : Transport Byte} {answer : Answer Byte}
      {next : Step Byte Response}, Holds operation point →
      point.resume codec endpoint stream t answer = some next →
      next.2 = .await later → Holds operation later)
    (starts : ∀ {t : Transport Byte} {effect : Effect} {operation : Operation}
      {next : Step Byte Response} {later : Point Byte Response},
      State.started endpoint request t effect = some (operation, next) →
      next.2 = .await later → Holds operation later)
    {s : State Byte Response}
    (reached : (machine codec endpoint request).Reached s) :
    ∀ waiting ∈ s.waiting, Holds waiting.operation waiting.point := by
  have entered : ∀ {u t : State Byte Response} {operation : Operation}
      {next : Step Byte Response}, u.Entered operation next t →
      (∀ waiting ∈ u.waiting, Holds waiting.operation waiting.point) →
      (∀ later, next.2 = .await later → Holds operation later) →
      ∀ waiting ∈ t.waiting, Holds waiting.operation waiting.point := by
    intro u t operation next entered earlier new waiting member
    rcases entered.waits member with old | ⟨point, awaits, rfl⟩
    · exact earlier waiting old
    · exact new point awaits
  induction reached with
  | start => simp [machine, State.waiting]
  | step earlier _ stepped holds =>
      rcases step_cases stepped with ⟨index, answer, rfl, ⟨answered⟩⟩ |
        ⟨event', _, ⟨handled⟩⟩
      · have perm := State.waiting_perm answered.member
        refine entered answered.entered (fun waiting member => ?_)
          (fun later awaits => ?_)
        · exact holds waiting (perm.symm.subset
            (List.mem_cons_of_mem _ member))
        · exact resumes (holds answered.flight.toWaiting
            (perm.symm.subset List.mem_cons_self)) answered.resumed awaits
      · rcases handled.cases (reached_atPoints (reached_session earlier)) with
          quiet | ⟨effect, operation, next, _, _, begun, launched⟩
        · rw [quiet, State.handled_waiting]
          exact holds
        · rw [launched, State.handled_waiting]
          exact entered (State.launch_entered begun) holds
            (fun later awaits => starts begun awaits)

theorem reached_suits {s : State Byte Response}
    (reached : (machine codec endpoint request).Reached s) :
    ∀ waiting ∈ s.waiting, suits endpoint waiting.point = true :=
  @reached_waits _ _ _ _ _ (fun _ point => suits endpoint point = true)
    (fun _ resumed awaits => suits_of_resume resumed awaits)
    (fun begun awaits => suits_of_started begun awaits) _ reached

theorem idle_of_disabled {s : State Byte Response} (linked : s.Linked)
    (disabled : step codec endpoint request s .complete = none) :
    s.completing = none := by
  cases completing : s.completing with
  | none => rfl
  | some ended =>
      have outstanding : ended.operation ∈ s.outstanding :=
        List.mem_append_right _ (by simp [completing])
      have member := linked.subperm.subset outstanding
      have reports : ended.operation.mayReport ended.ec = true := by
        cases operation : ended.operation with
        | wait waiter cancelled =>
            rw [operation] at outstanding
            exact (linked.notWait _ _ outstanding).elim
        | connect caller => rfl
        | exchange op => rfl
        | close graceful caller => rfl
      simp [step, completing, dispatch, Session.step, member, reports]
        at disabled

theorem session_atRest {s : State Byte Response}
    (reached : (machine codec endpoint request).ReachedBy
      (fun _ event => event.setsNoDelay endpoint = true) s)
    (rests : ∀ event : Event Byte, event.isCall = false →
      event.isChunk = false → event.noDelaySet = true →
      step codec endpoint request s event = none) :
    Session.machine.AtRest Session.Event.isOwn s.session := by
  have linked := reached_linked reached.reached
  have idle := idle_of_disabled linked (rests .complete rfl rfl rfl)
  have noFlights : s.flights = [] := by
    refine List.eq_nil_iff_forall_not_mem.mpr fun flight member => ?_
    obtain ⟨index, found⟩ := List.getElem?_of_mem member
    have suitable := reached_suits reached.reached flight.toWaiting
      (List.mem_map_of_mem member)
    obtain ⟨next, resumed⟩ :=
      @resume_ending _ _ codec endpoint _ flight.stream s.transport suitable
    have mayAnswer : flight.mayAnswer (ending flight.point) = true := by
      unfold ending
      split <;> rfl
    have disabled := rests (.answer index (ending flight.point)) rfl
      (by unfold ending; split <;> rfl) (by unfold ending; split <;> rfl)
    simp [step, idle, found, mayAnswer, resumed] at disabled
  have noOutstanding : s.outstanding = [] := by
    simp [State.outstanding, State.waiting, noFlights, idle]
  have kept := reached_kept reached
  rw [State.Kept, noOutstanding, List.length_nil, List.countP_eq_zero] at kept
  refine Session.atRest_iff.mpr ⟨?_, ?_⟩
  · refine List.eq_nil_iff_forall_not_mem.mpr fun handler member => ?_
    have disabled := rests (.post handler) rfl rfl rfl
    simp [step, idle, dispatch, Session.step, member] at disabled
  · refine List.eq_nil_iff_forall_not_mem.mpr fun operation member => ?_
    cases operation with
    | wait waiter cancelled =>
        have disabled := rests (.timer waiter cancelled none) rfl rfl rfl
        simp [step, idle, dispatch, Session.step, member,
          Operation.mayReport] at disabled
    | connect caller => exact kept _ member rfl
    | exchange op => exact kept _ member rfl
    | close graceful caller => exact kept _ member rfl

theorem reached_potential {s : State Byte Response}
    (reached : (machine codec endpoint request).Reached s) :
    s.potential ≤ 72 * s.session.core.pushes + 15 * s.session.core.starts +
      23 * s.session.core.stops := by
  induction reached with
  | start => exact Nat.le_refl 0
  | @step before after event earlier _ stepped within =>
      have paid := potential_pays.pays earlier stepped
      rcases step_cases stepped with ⟨index, answer, rfl, ⟨answered⟩⟩ |
        ⟨event', label, ⟨handled⟩⟩
      · rw [answered.entered.session]
        exact Nat.le_trans (Nat.le_trans (Nat.le_add_right _ _) paid) within
      · have counts := step_counts handled.stepped
        have cost := event.label_cost label
        rw [handled.session_eq, counts.pushes, counts.starts, counts.stops]
        omega

theorem atRest_session {s : State Byte Response}
    (reached : (machine codec endpoint request).ReachedBy
      (fun _ event => event.setsNoDelay endpoint = true) s)
    (rests : (machine codec endpoint request).AtRest
      (Event.isOwn endpoint) s) :
    Session.machine.AtRest Session.Event.isOwn s.session := by
  refine session_atRest reached fun event call chunk set => rests event ?_
  simp [Event.isOwn, call, chunk, Event.setsNoDelay_of_set set endpoint]

/-- Apart from the chunks of responses a session that is not called any more
takes a bounded number of steps. -/
theorem bounded_of_reached {s final : State Byte Response}
    (reached : (machine codec endpoint request).Reached s)
    {later : List (Event Byte)}
    (own : ∀ event ∈ later, event.isCall = false)
    (executed : (machine codec endpoint request).run s later = some final) :
    later.countP (fun event => !event.isChunk) ≤
      72 * s.session.core.pushes + 15 * s.session.core.starts +
        23 * s.session.core.stops := by
  have paid := potential_pays.effort_le reached
    (fun event member _ => event.cost_eq_zero (own event member)) executed
  have within := reached_potential reached
  have counted : (later.map Event.effort).sum =
      later.countP (fun event => !event.isChunk) :=
    sum_eq_countP fun event member => by
      cases chunk : event.isChunk <;>
        simp [Event.effort, own event member, chunk]
  omega

/-- What becomes of a session on its transport that is not called any more. -/
structure Settles (codec : Codec Byte Response) (endpoint : SessionEndpoint)
    (request : PushId → Request) (s : State Byte Response) : Prop where
  /-- the network can always bring it to rest -/
  rests : ∃ later final, (∀ event ∈ later, event.isOwn endpoint = true) ∧
    (machine codec endpoint request).run s later = some final ∧
    (machine codec endpoint request).AtRest (Event.isOwn endpoint) final
  /-- apart from the chunks of responses it never takes longer than this -/
  bounded : ∀ later final, (∀ event ∈ later, event.isCall = false) →
    (machine codec endpoint request).run s later = some final →
    later.countP (fun event => !event.isChunk) ≤
      72 * s.session.core.pushes + 15 * s.session.core.starts +
        23 * s.session.core.stops
  /-- when it rests, every handler has been called -/
  settled : ∀ later final,
    (∀ event ∈ later, event.setsNoDelay endpoint = true) →
    (machine codec endpoint request).run s later = some final →
    (machine codec endpoint request).AtRest (Event.isOwn endpoint) final →
    final.session.Settled

end Connection

end Fetchpp

import Fetchpp.Client.Accounting
import Fetchpp.Connection.Sending
import Fetchpp.Stack.Core

/-!
# The client behind the stack

A run of the client on its transports is a run of the client whose sessions
have none, and each of its connections runs by the machine of a connection
with the endpoint of the session and the requests that were pushed onto it.
-/

namespace Fetchpp

open Http Lib

namespace Client

/-- It runs one work on the strand of a session, or it runs none. -/
inductive Moved (pool : List Hosted) :
    Option (Nat × Work) → List Hosted → Prop where
  | same : Moved pool none pool
  | queued {index : Nat} {hosted : Hosted} (work : Work) :
      pool[index]? = some hosted →
      Moved pool none
        (pool.set index { hosted with queued := hosted.queued ++ [work] })
  | ran {index : Nat} {hosted : Hosted} (rest : List Work) (work : Work) :
      pool[index]? = some hosted →
      Moved pool (some (index, work))
        (pool.set index ({ hosted with queued := rest }.execute work))
  | created (endpoint : SessionEndpoint) (work : Work) :
      Moved pool (some (pool.length, work))
        (pool ++ [({ endpoint := endpoint } : Hosted).execute work])

theorem State.dispatch_moved (index : Nat) (work : Work) (completed : Bool)
    (s : State) :
    Moved s.sessions (s.runsAt index work completed)
      (s.sessions.modify index (Hosted.dispatch completed work)) := by
  rw [List.modify_eq_set_getElem?, State.runsAt]
  cases found : s.sessions[index]? with
  | none => exact .same
  | some hosted =>
      cases busy : hosted.busy completed with
      | true =>
          simpa [Hosted.dispatch, busy] using Moved.queued work found
      | false =>
          simpa [Hosted.dispatch, busy] using
            Moved.ran hosted.queued work found

theorem State.fetch_moved (rules : UrlRules) (uri : Url) (completed : Bool)
    (s : State) :
    Moved s.sessions ((Event.fetch uri completed).runs rules s)
      (s.fetch rules uri completed).sessions := by
  cases selected : selectProxy s.proxies uri with
  | error exception =>
      simpa [Event.runs, State.fetch, State.fetchOp, selected] using Moved.same
  | ok proxy =>
      cases built : fetchEndpoint rules proxy uri with
      | error exception =>
          simpa [Event.runs, State.fetch, State.fetchOp, selected, built] using
            Moved.same
      | ok endpoint =>
          simp only [Event.runs, State.fetch, State.fetchOp, selected, built,
            State.pushRequest]
          cases search : s.findSession endpoint with
          | some index =>
              simp only [State.getSession, search]
              exact s.dispatch_moved index _ completed
          | none =>
              have runs : State.runsAt s.sessions.length
                  (.push ⟨s.fetches, uri, proxy⟩) completed { s with
                    sessions := s.sessions ++ [{ endpoint := endpoint }] } =
                  some (s.sessions.length, .push ⟨s.fetches, uri, proxy⟩) := by
                simp [State.runsAt, Hosted.busy]
              simp only [State.getSession, search, runs]
              rw [List.modify_eq_set_getElem?, List.getElem?_concat_length]
              simpa [Hosted.dispatch, Hosted.busy] using
                Moved.created endpoint (.push ⟨s.fetches, uri, proxy⟩)

theorem step_moved {rules : UrlRules} {s t : State} {event : Event}
    (stepped : step rules s event = some t)
    (handler : event.ofSession = false) :
    Moved s.sessions (event.runs rules s) t.sessions := by
  cases event with
  | fetch uri completed =>
      cases stepped
      exact s.fetch_moved rules uri completed
  | update update =>
      cases stepped
      exact .same
  | stop graceful completed =>
      cases stepped
      have moved := s.dispatch_moved 0 (.stop graceful s.stops) completed
      simp only [State.stop, StopOp.loop]
      split
      case isTrue => exact moved
      case isFalse ended =>
        have empty : s.sessions = [] :=
          List.length_eq_zero_iff.mp (not_not.mp ended).symm
        simpa [Event.runs, State.runsAt, empty] using
          (Moved.same : Moved [] none [])
  | stopResumed op ec completed =>
      simp only [step] at stepped
      split at stepped
      case h_1 => cases stepped
      case h_2 hosted found =>
        split at stepped
        case isFalse => cases stepped
        case isTrue =>
          cases stepped
          have moved := s.dispatch_moved (op.begin_ + 1)
            (.stop op.graceful op.op) completed
          simp only [StopOp.resume, StopOp.loop, Event.runs]
          by_cases ended : op.begin_ + 1 = op.end_
          · simpa [ended] using Moved.same
          · simpa [ended] using moved
  | stopCalled op ec =>
      simp only [step] at stepped
      split at stepped
      · cases stepped
        exact .same
      · cases stepped
  | work index =>
      simp only [step, State.work] at stepped
      cases found : s.sessions[index]? with
      | none => simp [found] at stepped
      | some hosted =>
          cases queued : hosted.queued with
          | nil => simp [found, queued] at stepped
          | cons work rest =>
              simp only [found, queued, Option.some.injEq] at stepped
              subst stepped
              simpa [Event.runs, found, queued] using Moved.ran rest work found
  | post index posted isOpen => cases handler
  | resume index operation ec isOpen => cases handler

end Client

namespace Session

theorem State.Invariant.driver_accepted {s : State} (invariant : s.Invariant)
    {op : QueueOp} (drives : .queueOp op ∈ s.drivers) :
    op.task ∈ s.core.accepted := by
  have queued : op.task ∈ s.core.tasks := by
    cases invariant.driven with
    | idle tasks drivers => simp [drivers] at drives
    | unrun front rest tasks drivers => simp [drivers] at drives
    | completed front rest tasks drivers => simp [drivers] at drives
    | live other rest tasks drivers served ran hasRun =>
        rw [drivers, List.mem_singleton, Driver.queueOp.injEq] at drives
        simp [tasks, drives]
  rw [invariant.numbered.order]
  exact List.mem_append_right _ queued

theorem State.Invariant.driver_known {s : State} (invariant : s.Invariant)
    {op : QueueOp} (drives : .queueOp op ∈ s.drivers) :
    op.task < s.core.pushes :=
  (invariant.numbered.known op.task).mp
    (List.mem_append_left _ (invariant.driver_accepted drives))

end Session

namespace Connection

open Session

variable {Byte Response : Type} {codec : Codec Byte Response}
  {endpoint : SessionEndpoint} {request request' : PushId → Request}

theorem launch_congr {effect : Effect}
    (agree : ∀ op, effect = .exchange op → request op.task = request' op.task)
    (s : State Byte Response) :
    s.launch endpoint request effect = s.launch endpoint request' effect := by
  cases effect with
  | exchange op => simp only [State.launch, agree op rfl]
  | _ => rfl

theorem dispatch_congr {s : State Byte Response} {event : Session.Event}
    (agree : ∀ op, .exchange op ∈ (event.outcome s.session.core).2 →
      request op.task = request' op.task) :
    dispatch endpoint request s event =
      dispatch endpoint request' s event := by
  unfold dispatch
  split
  case h_1 => rfl
  case h_2 session stepped =>
    refine congrArg some (List.foldl_ext _ _ _ fun u effect member => ?_)
    exact launch_congr (fun op same => agree op (same ▸ member)) u

theorem step_congr {s : State Byte Response} {event : Event Byte}
    (agree : ∀ event', event.label s = some event' → ∀ op,
      .exchange op ∈ (event'.outcome s.session.core).2 →
      request op.task = request' op.task) :
    step codec endpoint request s event =
      step codec endpoint request' s event := by
  have same : ∀ (u : State Byte Response) (event' : Session.Event),
      u.session = s.session → event.label s = some event' →
      dispatch endpoint request u event' =
        dispatch endpoint request' u event' := by
    intro u event' session label
    refine dispatch_congr fun op starts => agree event' label op ?_
    rwa [← session]
  cases idle : s.completing with
  | some completing =>
      cases event with
      | complete =>
          simp only [step, idle]
          rw [same { s with completing := none } (.resume completing.operation
            completing.ec s.transport.isOpen) rfl (by simp [Event.label, idle])]
      | _ => simp only [step, idle]
  | none =>
      cases event with
      | push => simpa only [step, idle] using same s _ rfl rfl
      | start => simpa only [step, idle] using same s _ rfl rfl
      | stop graceful => simpa only [step, idle] using same s _ rfl rfl
      | post handler => simpa only [step, idle] using same s _ rfl rfl
      | timer stop cancelled ec => simpa only [step, idle] using same s _ rfl rfl
      | answer index answer => simp only [step, idle]
      | complete => simp only [step, idle]

theorem Handled.one {s t : State Byte Response} {event : Session.Event}
    (handled : Handled endpoint request s event t)
    (points : s.session.AtPoints) {op : QueueOp}
    (starts : .exchange op ∈ (event.outcome s.session.core).2) :
    (event.outcome s.session.core).2 = [.exchange op] := by
  have point := points.event (step_eq handled.stepped).1
  rcases event.effects point s.session.core with none | ⟨effect, one, _⟩
  · simp [none] at starts
  · rw [one, List.mem_singleton] at starts
    rw [one, starts]

theorem step_pushes_le {s t : State Byte Response} {event : Event Byte}
    (stepped : step codec endpoint request s event = some t) :
    s.session.core.pushes ≤ t.session.core.pushes := by
  rcases step_cases stepped with ⟨_, _, _, ⟨answered⟩⟩ | ⟨_, _, ⟨handled⟩⟩
  · exact (congrArg (·.core.pushes) answered.entered.session).ge
  · rw [handled.session_eq, (Session.step_counts handled.stepped).pushes]
    exact Nat.le_add_right _ _

/-- A run does not depend on requests that were not pushed. -/
theorem reached_congr {Allowed : Event Byte → Prop} {s : State Byte Response}
    (reached : (machine codec endpoint request).ReachedBy
      (fun _ event => Allowed event) s)
    (agree : ∀ push, push < s.session.core.pushes →
      request push = request' push) :
    (machine codec endpoint request').ReachedBy
      (fun _ event => Allowed event) s := by
  induction reached with
  | start => exact .start
  | @step before after event earlier allowed stepped induction =>
      have reachedAfter := earlier.reached.step trivial stepped
      have same : step codec endpoint request before event =
          step codec endpoint request' before event := by
        refine step_congr fun event' label op starts => ?_
        rcases step_cases stepped with ⟨_, _, rfl, _⟩ |
          ⟨other, known, ⟨handled⟩⟩
        · cases label
        · rw [label] at known
          cases known
          have points := reached_atPoints (reached_session earlier.reached)
          have one := handled.one points starts
          refine agree op.task ((reached_invariant
            (reached_session reachedAfter)).driver_known ?_)
          exact Session.State.mem_drivers (handled.exchange_drives one) rfl
      refine (induction fun push known => agree push ?_).step allowed
        (same.symm.trans stepped)
      exact Nat.lt_of_lt_of_le known (step_pushes_le stepped)

theorem Event.resumes_of_label {s : State Byte Response} {event : Event Byte}
    {event' : Session.Event} (own : event.isCall = false)
    (label : event.label s = some event') :
    (∃ handler isOpen, event' = .post handler isOpen) ∨
      ∃ operation ec isOpen, event' = .resume operation ec isOpen := by
  cases event with
  | push => cases own
  | start => cases own
  | stop graceful => cases own
  | post handler =>
      cases label
      exact .inl ⟨_, _, rfl⟩
  | timer stop cancelled ec =>
      cases label
      exact .inr ⟨_, _, _, rfl⟩
  | answer index answer => cases label
  | complete =>
      obtain ⟨completing, _, rfl⟩ := Option.map_eq_some_iff.mp label
      exact .inr ⟨_, _, _, rfl⟩

end Connection

namespace Stack

open Client

variable {Byte Response : Type} {codec : Codec Byte Response}
  {rules : UrlRules} {requests : Nat → Request}

/-- A session of the client and the connection it runs on, which has come
where it is by allowed steps. -/
structure Wire (codec : Codec Byte Response) (requests : Nat → Request)
    (Allowed : SessionEndpoint → Connection.Event Byte → Prop) (hosted : Hosted)
    (connection : Connection.State Byte Response) : Prop where
  session : connection.session = hosted.session
  counted : hosted.Counted
  reached : (Connection.machine codec hosted.endpoint
    (hosted.request requests)).ReachedBy
      (fun _ event => Allowed hosted.endpoint event) connection

def State.Wired (codec : Codec Byte Response) (requests : Nat → Request)
    (Allowed : SessionEndpoint → Connection.Event Byte → Prop)
    (s : State Byte Response) : Prop :=
  List.Forall₂ (Wire codec requests Allowed) s.client.sessions s.connections

namespace Wire

variable {Allowed : SessionEndpoint → Connection.Event Byte → Prop}
  {hosted : Hosted}
  {connection next : Connection.State Byte Response}

theorem fresh (endpoint : SessionEndpoint) :
    Wire codec requests Allowed { endpoint := endpoint } {} :=
  ⟨rfl, ⟨rfl, rfl⟩, .start⟩

theorem queue (wire : Wire codec requests Allowed hosted connection)
    (queued : List Work) :
    Wire codec requests Allowed { hosted with queued := queued } connection :=
  ⟨wire.session, ⟨wire.counted.pushed, wire.counted.stopped⟩, wire.reached⟩

theorem reached_execute (wire : Wire codec requests Allowed hosted connection)
    (work : Work) :
    (Connection.machine codec (hosted.execute work).endpoint
      ((hosted.execute work).request requests)).ReachedBy
        (fun _ event => Allowed hosted.endpoint event) connection := by
  rw [Hosted.execute_endpoint]
  refine Connection.reached_congr wire.reached fun push known => ?_
  rw [wire.session, wire.counted.pushed] at known
  cases work with
  | push fetch =>
      simp only [Hosted.request, Hosted.execute]
      rw [List.getElem?_append_left known]
  | stop graceful op => rfl

theorem call (wire : Wire codec requests Allowed hosted connection)
    {work : Work} (allowed : Allowed hosted.endpoint work.call)
    (stepped : Connection.step codec (hosted.execute work).endpoint
      ((hosted.execute work).request requests) connection work.call =
        some next) :
    Wire codec requests Allowed (hosted.execute work) next := by
  have label : (work.call : Connection.Event Byte).label connection =
      some work.event := by
    cases work <;> rfl
  have came := (wire.reached_execute work).step allowed stepped
  refine ⟨?_, wire.counted.execute work,
    by simpa only [Hosted.execute_endpoint] using came⟩
  rcases Connection.step_cases stepped with ⟨index, answer, called, _⟩ |
    ⟨event, known, ⟨handled⟩⟩
  · rw [called] at label
    cases label
  · rw [label] at known
    cases known
    have taken := handled.stepped
    rw [wire.session, Hosted.execute_step] at taken
    exact handled.session_eq.trans (Option.some.inj taken).symm

theorem move (wire : Wire codec requests Allowed hosted connection)
    {event : Connection.Event Byte} (own : event.isCall = false)
    (allowed : Allowed hosted.endpoint event)
    (stepped : Connection.step codec hosted.endpoint (hosted.request requests)
      connection event = some next) :
    Wire codec requests Allowed { hosted with session := next.session } next := by
  refine ⟨rfl, ?_, wire.reached.step allowed stepped⟩
  rcases Connection.step_cases stepped with ⟨index, answer, _, ⟨answered⟩⟩ |
    ⟨event', label, ⟨handled⟩⟩
  · have same : next.session = hosted.session :=
      answered.entered.session.trans wire.session
    exact same ▸ wire.counted
  · have taken := handled.stepped
    rw [wire.session, ← handled.session_eq] at taken
    have advanced : Hosted.Change (fun _ => False) hosted
        { hosted with session := next.session } := by
      rcases Connection.Event.resumes_of_label own label with
        ⟨handler, isOpen, rfl⟩ | ⟨operation, ec, isOpen, rfl⟩
      · exact .advance (by simp) (by simp) (by simp) taken
      · exact .advance (by simp) (by simp) (by simp) taken
    exact wire.counted.change advanced

end Wire

/-- The step of the client behind a step of its session. -/
def hostedEvent (index : Nat) : Session.Event → Option Client.Event
  | .post handler isOpen => some (.post index handler isOpen)
  | .resume operation ec isOpen => some (.resume index operation ec isOpen)
  | _ => none

/-- A condition on the steps of the connections, by their endpoints. -/
def Event.Satisfies (Allowed : SessionEndpoint → Connection.Event Byte → Prop)
    (s : State Byte Response) : Event Byte → Prop
  | .client _ => True
  | .session index event => ∀ hosted, s.client.sessions[index]? = some hosted →
      Allowed hosted.endpoint event

variable {Allowed : SessionEndpoint → Connection.Event Byte → Prop}

/-- A step of a session is one of its connection. -/
theorem State.move_eq {s t : State Byte Response}
    (wired : s.Wired codec requests Allowed) {index : Nat}
    {event : Connection.Event Byte}
    (moved : s.move codec requests index event = some t) :
    ∃ hosted connection next, s.client.sessions[index]? = some hosted ∧
      s.connections[index]? = some connection ∧
      Wire codec requests Allowed hosted connection ∧
      Connection.step codec hosted.endpoint (hosted.request requests)
        connection event = some next ∧
      t.client = { s.client with
        sessions := s.client.sessions.set index
          { hosted with session := next.session } } ∧
      t.connections = s.connections.set index next := by
  unfold State.move State.advance at moved
  cases found : s.client.sessions[index]? with
  | none => simp [found] at moved
  | some hosted =>
      obtain ⟨connection, known, wire⟩ := forall₂_getElem? wired found
      cases stepped : Connection.step codec hosted.endpoint
          (hosted.request requests) connection event with
      | none => simp [found, known, stepped] at moved
      | some next =>
          have inside := (List.getElem?_eq_some_iff.mp known).1
          simp only [found, known, Option.getD_some, stepped,
            State.setConnection, if_pos inside, Option.some.injEq] at moved
          subst moved
          refine ⟨hosted, connection, next, rfl, known, wire, stepped, ?_, rfl⟩
          rw [List.modify_eq_set_getElem?, found]
          rfl

theorem State.Wired.move {s t : State Byte Response}
    (wired : s.Wired codec requests Allowed) {index : Nat}
    {event : Connection.Event Byte} (own : event.isCall = false)
    (allowed : (Event.session index event).Satisfies Allowed s)
    (moved : s.move codec requests index event = some t) :
    t.Wired codec requests Allowed := by
  obtain ⟨hosted, connection, next, found, _, wire, stepped, client,
    connections⟩ := State.move_eq wired moved
  rw [State.Wired, client, connections]
  exact forall₂_set wired index
    (wire.move own (allowed hosted found) stepped)

/-- How the connections follow a handler of the client. -/
inductive Handles (codec : Codec Byte Response) (requests : Nat → Request)
    (Allowed : SessionEndpoint → Connection.Event Byte → Prop)
    (s t : State Byte Response) : Option (Nat × Work) → Prop where
  | quiet :
      List.Forall₂ (Wire codec requests Allowed) t.client.sessions
        s.connections →
      t.connections = s.connections →
      Handles codec requests Allowed s t none
  | known {index : Nat} {work : Work} {hosted : Hosted}
      {connection next : Connection.State Byte Response} :
      s.connections[index]? = some connection →
      Wire codec requests Allowed hosted connection →
      Connection.step codec (hosted.execute work).endpoint
        ((hosted.execute work).request requests) connection work.call =
          some next →
      t.client.sessions = s.client.sessions.set index (hosted.execute work) →
      t.connections = s.connections.set index next →
      Handles codec requests Allowed s t (some (index, work))
  | created {work : Work} {hosted : Hosted}
      {next : Connection.State Byte Response} :
      Wire codec requests Allowed hosted {} →
      Connection.step codec (hosted.execute work).endpoint
        ((hosted.execute work).request requests) {} work.call = some next →
      t.client.sessions = s.client.sessions ++ [hosted.execute work] →
      t.connections = s.connections ++ [next] →
      Handles codec requests Allowed s t
        (some (s.client.sessions.length, work))

/-- A handler of the client is a step of the client, and the connections follow
its sessions. -/
theorem State.Wired.handle_cases {s t : State Byte Response}
    (wired : s.Wired codec requests Allowed) {event : Client.Event}
    (handler : event.ofSession = false)
    (handled : s.handle codec rules requests event = some t) :
    Client.step rules s.client event = some t.client ∧
      Handles codec requests Allowed s t (event.runs rules s.client) := by
  unfold State.handle at handled
  cases stepped : Client.step rules s.client event with
  | none => simp [stepped] at handled
  | some client =>
      have moved := step_moved stepped handler
      simp only [stepped] at handled
      generalize event.runs rules s.client = run at handled moved
      generalize after : client.sessions = sessions at moved
      have pairs : List.Forall₂ (Wire codec requests Allowed)
        s.client.sessions s.connections := wired
      cases moved with
      | same =>
          cases handled
          exact ⟨rfl, .quiet (by rwa [after]) rfl⟩
      | queued work found =>
          cases handled
          refine ⟨rfl, .quiet ?_ rfl⟩
          rw [after]
          exact forall₂_set_left pairs found fun _ wire => wire.queue _
      | @ran index hosted rest work found =>
          obtain ⟨connection, known, wire⟩ := forall₂_getElem? pairs found
          have inside := (List.getElem?_eq_some_iff.mp found).1
          have also := (List.getElem?_eq_some_iff.mp known).1
          obtain ⟨next, advanced, rfl⟩ := Option.map_eq_some_iff.mp handled
          simp only [State.advance, after, List.getElem?_set_self inside,
            known, Option.getD_some] at advanced
          exact ⟨rfl, .known known (wire.queue rest) advanced after
            (if_pos also)⟩
      | created endpoint work =>
          obtain ⟨next, advanced, rfl⟩ := Option.map_eq_some_iff.mp handled
          have same := pairs.length_eq
          simp only [State.advance, after, List.getElem?_concat_length,
            List.getElem?_eq_none same.ge, Option.getD_none] at advanced
          exact ⟨rfl, .created (.fresh endpoint) advanced after
            (if_neg (Nat.not_lt.mpr same.ge))⟩

theorem State.Wired.handle {s t : State Byte Response}
    (wired : s.Wired codec requests Allowed)
    (calls : ∀ endpoint (work : Work), Allowed endpoint work.call)
    {event : Client.Event}
    (handler : event.ofSession = false)
    (handled : s.handle codec rules requests event = some t) :
    t.Wired codec requests Allowed := by
  obtain ⟨_, handles⟩ := wired.handle_cases handler handled
  generalize event.runs rules s.client = run at handles
  rw [State.Wired]
  cases handles with
  | quiet pairs same => rwa [same]
  | @known index work hosted connection next _ wire stepped sessions
      connections =>
      rw [sessions, connections]
      exact forall₂_set wired index (wire.call (calls _ work) stepped)
  | @created work hosted next wire stepped sessions connections =>
      rw [sessions, connections]
      exact List.rel_append wired (.cons (wire.call (calls _ work) stepped) .nil)

/-- The step of the client behind an event. -/
def Event.label (s : State Byte Response) : Event Byte → Option Client.Event
  | .client event => some event
  | .session index event =>
      (s.connections[index]?.bind event.label).bind (hostedEvent index)

theorem step_client {s t : State Byte Response} {event : Client.Event}
    (stepped : step codec rules requests s (.client event) = some t) :
    event.ofSession = false ∧ s.handle codec rules requests event = some t := by
  simp only [step] at stepped
  split at stepped
  case isTrue => cases stepped
  case isFalse allowed =>
    simp only [Bool.or_eq_true, not_or, Bool.not_eq_true] at allowed
    exact ⟨allowed.1, stepped⟩

theorem step_session {s t : State Byte Response} {index : Nat}
    {event : Connection.Event Byte}
    (stepped : step codec rules requests s (.session index event) = some t) :
    event.isCall = false ∧ s.move codec requests index event = some t := by
  simp only [step] at stepped
  split at stepped
  case isTrue => cases stepped
  case isFalse allowed =>
    simp only [Bool.or_eq_true, not_or, Bool.not_eq_true] at allowed
    exact ⟨allowed.1, stepped⟩

theorem client_same {client : Client.State} {index : Nat} {hosted : Hosted}
    (found : client.sessions[index]? = some hosted) :
    { client with sessions := client.sessions.set index hosted } = client := by
  have same := map_set_same id found rfl
  rw [List.map_id, List.map_id] at same
  rw [same]

/-- A client on its transports runs as the client does. -/
theorem simulation (maxPending : Nat) : Machine.Simulation
    (machine codec rules requests maxPending)
    (Client.machine rules maxPending)
    (fun s image => s.client = image ∧
      s.Wired codec requests (fun _ _ => True))
    (fun s event => event.label s) where
  start := ⟨rfl, .nil⟩
  silent := by
    rintro before event after image ⟨rfl, wired⟩ stepped silent
    cases event with
    | client event => cases silent
    | session index event =>
        have told : step codec rules requests before (.session index event) =
          some after := stepped
        obtain ⟨own, moved⟩ := step_session told
        obtain ⟨hosted, connection, next, found, known, wire, inner, client,
          _⟩ := State.move_eq wired moved
        refine ⟨?_, wired.move own (fun _ _ => trivial) moved⟩
        rcases Connection.step_cases inner with ⟨_, answer, _, ⟨answered⟩⟩ |
          ⟨event', label, _⟩
        · have same : next.session = hosted.session :=
            answered.entered.session.trans wire.session
          rw [client, same]
          exact client_same found
        · simp only [Event.label, known, Option.bind_some, label] at silent
          rcases Connection.Event.resumes_of_label own label with
            ⟨_, _, rfl⟩ | ⟨_, _, _, rfl⟩ <;> cases silent
  visible := by
    rintro before event after image event' ⟨rfl, wired⟩ stepped visible
    cases event with
    | client event =>
        cases visible
        obtain ⟨handler, handled⟩ := step_client stepped
        exact ⟨_, (wired.handle_cases handler handled).1, rfl,
          wired.handle (fun _ _ => trivial) handler handled⟩
    | session index event =>
        have told : step codec rules requests before (.session index event) =
          some after := stepped
        obtain ⟨own, moved⟩ := step_session told
        obtain ⟨hosted, connection, next, found, known, wire, inner, client,
          _⟩ := State.move_eq wired moved
        refine ⟨after.client, ?_, rfl, wired.move own (fun _ _ => trivial) moved⟩
        rcases Connection.step_cases inner with ⟨_, _, rfl, _⟩ |
          ⟨event'', label, ⟨handled⟩⟩
        · simp [Event.label, known, Connection.Event.label] at visible
        · have taken := handled.stepped
          rw [wire.session, ← handled.session_eq] at taken
          simp only [Event.label, known, Option.bind_some, label] at visible
          rcases Connection.Event.resumes_of_label own label with
            ⟨_, _, rfl⟩ | ⟨_, _, _, rfl⟩
          · cases visible
            simp [Client.machine, Client.step, Client.State.advance, found,
              taken, client]
          · cases visible
            simp [Client.machine, Client.step, Client.State.advance, found,
              taken, client]

variable {maxPending : Nat}

theorem reachedBy_wired
    {Allowed : SessionEndpoint → Connection.Event Byte → Prop}
    (calls : ∀ endpoint (work : Work), Allowed endpoint work.call)
    {s : State Byte Response}
    (reached : (machine codec rules requests maxPending).ReachedBy
      (fun before event => event.Satisfies Allowed before) s) :
    s.Wired codec requests Allowed := by
  induction reached with
  | start => exact .nil
  | @step before after event _ allowed stepped wired =>
      have told : step codec rules requests before event = some after := stepped
      cases event with
      | client event =>
          obtain ⟨handler, handled⟩ := step_client told
          exact wired.handle calls handler handled
      | session index event =>
          obtain ⟨own, moved⟩ := step_session told
          exact wired.move own allowed moved

theorem reached_client {s : State Byte Response}
    (reached : (machine codec rules requests maxPending).Reached s) :
    (Client.machine rules maxPending).Reached s.client := by
  obtain ⟨image, imageReached, rfl, _⟩ :=
    (simulation maxPending).reached reached
  exact imageReached

theorem reached_wired {s : State Byte Response}
    (reached : (machine codec rules requests maxPending).Reached s) :
    s.Wired codec requests (fun _ _ => True) := by
  obtain ⟨image, _, _, wired⟩ := (simulation maxPending).reached reached
  exact wired

/-- A run on transports, read as a run of the client and of each connection. -/
structure Refines (codec : Codec Byte Response) (rules : UrlRules)
    (requests : Nat → Request) (maxPending : Nat) (events : List (Event Byte))
    (s : State Byte Response) : Prop where
  client : (Client.machine rules maxPending).run
    (Client.machine rules maxPending).start
      ((machine codec rules requests maxPending).labels
        (fun before event => event.label before)
        (machine codec rules requests maxPending).start events) =
    some s.client
  sameLength : s.client.sessions.length = s.connections.length
  connections : ∀ (index : Nat) (hosted : Hosted),
    s.client.sessions[index]? = some hosted →
    ∃ connection, s.connections[index]? = some connection ∧
      connection.session = hosted.session ∧
      (Connection.machine codec hosted.endpoint
        (hosted.request requests)).Reached connection

/-- Every run of a client on its transports is a run of the client, and takes
each session where the machine of its connection can take it. -/
theorem run_refines {events : List (Event Byte)} {s : State Byte Response}
    (executed : (machine codec rules requests maxPending).run
      (machine codec rules requests maxPending).start events = some s) :
    Refines codec rules requests maxPending events s := by
  obtain ⟨image, ran, rfl, wired⟩ := (simulation maxPending).run
    (simulation maxPending).start executed
  refine ⟨ran, List.Forall₂.length_eq wired, ?_⟩
  intro index hosted found
  obtain ⟨connection, known, wire⟩ := forall₂_getElem? wired found
  exact ⟨connection, known, wire.session, wire.reached.reached⟩

/-- A fetch from its call to the response. -/
def loadingRun : List (Event Char) :=
  [.client (.fetch localUrl false), .session 0 (.post .processTask),
    .session 0 (.answer 0 (.resolved none none true)),
    .session 0 (.answer 0 (.connected none none true)), .session 0 .complete,
    .session 0 (.answer 0 (.ended none false)),
    .session 0 (.answer 0 (.chunk (Connection.exampleReply "ok"))),
    .session 0 .complete]

theorem refines_of_loadingRun :
    ∃ s, s.client.sessions.map Hosted.answers =
        [[(⟨0, localUrl, none⟩, none)]] ∧
      Refines textCodec specialRules (fun _ => exampleRequest) 10 loadingRun
        s := by
  have executed : ((machine textCodec specialRules
        (fun _ => exampleRequest) 10).run (machine textCodec specialRules
        (fun _ => exampleRequest) 10).start loadingRun).map
        (fun s => s.client.sessions.map Hosted.answers) =
      some [[(⟨0, localUrl, none⟩, none)]] := by
    decide +kernel
  obtain ⟨s, ran, answers⟩ := Option.map_eq_some_iff.mp executed
  exact ⟨s, answers, run_refines ran⟩

end Stack

end Fetchpp

import Fetchpp.Client.Resting
import Fetchpp.Stack.Delivering

/-!
# A client on its transports comes to rest

What is left to do is what the connections have left, the works that are still
queued for them, and the walks over the sessions.  A client that is not called
any more comes to rest, unless chunks of responses keep coming, and then the
handler of every fetch that no exception took along has been called, and that of
every stop if no session was created during one.
-/

namespace Fetchpp

open Http Lib

namespace Client

/-- What the call of its connection costs. -/
def Work.price : Work → Nat
  | .push _ => 72
  | .stop _ _ => 23

def Hosted.due (hosted : Hosted) : Nat :=
  (hosted.queued.map fun work => work.price + 1).sum

/-- The sessions the operation has still to ask, and the call of its handler.
-/
def StopOp.due (op : StopOp) : Nat :=
  25 * (op.end_ - op.begin_ - 1) + 2

def State.due (s : State) : Nat :=
  (s.sessions.map Hosted.due).sum + (s.stopping.map StopOp.due).sum +
    s.stopPosts.length

/-- What a work that runs at once costs. -/
def runPrice : Option (Nat × Work) → Nat
  | some (_, work) => work.price
  | none => 0

/-- What a call costs the sessions and their transports. -/
def Event.price : State → Event → Nat :=
  Event.bill 73 25

@[simp] theorem Hosted.due_execute (work : Work) (hosted : Hosted) :
    (hosted.execute work).due = hosted.due := by
  rw [due, due, Hosted.execute_queued]

theorem State.dispatch_due (index : Nat) (work : Work) (completed : Bool)
    (s : State) :
    ((s.sessions.modify index (Hosted.dispatch completed work)).map
        Hosted.due).sum + runPrice (s.runsAt index work completed) ≤
      (s.sessions.map Hosted.due).sum + work.price + 1 := by
  rw [List.modify_eq_set_getElem?, State.runsAt]
  cases found : s.sessions[index]? with
  | none =>
      simp only [Option.map_eq_map, Option.map_none, Option.getD_none, runPrice]
      omega
  | some hosted =>
      have exchanged := sum_set Hosted.due (hosted.dispatch completed work)
        found
      cases busy : hosted.busy completed with
      | true =>
          have queued : (hosted.dispatch completed work).due =
              hosted.due + work.price + 1 := by
            simp [Hosted.dispatch, busy, Hosted.due, Nat.add_assoc]
          simp only [Option.map_eq_map, Option.map_some, Option.getD_some, busy,
            if_true, runPrice]
          omega
      | false =>
          have same : (hosted.dispatch completed work).due = hosted.due := by
            simp [Hosted.dispatch, busy]
          simp only [Option.map_eq_map, Option.map_some, Option.getD_some, busy,
            Bool.false_eq_true, if_false, runPrice]
          omega

theorem State.fetch_due (rules : UrlRules) (uri : Url) (completed : Bool)
    (s : State) :
    (s.fetch rules uri completed).due +
        runPrice ((Event.fetch uri completed).runs rules s) ≤ s.due + 73 := by
  cases selected : selectProxy s.proxies uri with
  | error exception =>
      simp [Event.runs, State.fetch, State.fetchOp, selected, State.due,
        runPrice]
  | ok proxy =>
      cases built : fetchEndpoint rules proxy uri with
      | error exception =>
          simp [Event.runs, State.fetch, State.fetchOp, selected, built,
            State.due, runPrice]
      | ok endpoint =>
          simp only [Event.runs, State.fetch, State.fetchOp, selected, built,
            State.pushRequest]
          have pushed := (s.getSession endpoint).1.dispatch_due
            (s.getSession endpoint).2 (.push ⟨s.fetches, uri, proxy⟩) completed
          have same : ((s.getSession endpoint).1.sessions.map Hosted.due).sum =
              (s.sessions.map Hosted.due).sum := by
            unfold State.getSession
            split <;> simp [Hosted.due]
          have stopping : (s.getSession endpoint).1.stopping = s.stopping ∧
              (s.getSession endpoint).1.stopPosts = s.stopPosts := by
            unfold State.getSession
            split <;> exact ⟨rfl, rfl⟩
          simp only [State.due, stopping.1, stopping.2]
          simp only [Work.price] at pushed
          omega

theorem StopOp.loop_due (op : StopOp) (completed : Bool)
    (ec : Option ErrorCode) (s : State) (current : op.begin_ ≤ op.end_) :
    (op.loop completed ec s).due +
        runPrice (if op.begin_ = op.end_ then none
          else s.runsAt op.begin_ (.stop op.graceful op.op) completed) ≤
      s.due + 25 * (op.end_ - op.begin_) + 1 := by
  simp only [StopOp.loop]
  by_cases ended : op.begin_ = op.end_
  · simp only [ended, ne_eq, not_true, if_false, if_true, State.due, runPrice,
      List.length_append, List.length_singleton]
    omega
  · have asked := s.dispatch_due op.begin_ (.stop op.graceful op.op) completed
    simp only [ended, ne_eq, not_false_eq_true, if_true, if_false, State.due,
      StopOp.due, List.map_append, List.map_cons, List.map_nil,
      List.sum_append, List.sum_cons, List.sum_nil]
    change _ + runPrice (s.runsAt _ _ _) ≤ _ at asked
    simp only [Work.price] at asked
    omega

private theorem stop_due (rules : UrlRules) (s : State)
    (graceful : GracefulShutdown) (completed : Bool) :
    (s.stop graceful completed).due +
        runPrice ((Event.stop graceful completed).runs rules s) ≤
      s.due + (Event.stop graceful completed).price s := by
  have paid := StopOp.loop_due
    ⟨s.stops, graceful, 0, s.sessions.length, none⟩ completed none
    { s with stops := s.stops + 1 } (Nat.zero_le _)
  have runs : runPrice (if 0 = s.sessions.length then none
      else s.runsAt 0 (.stop graceful s.stops) completed) =
      runPrice (s.runsAt 0 (.stop graceful s.stops) completed) := by
    split
    case isTrue empty =>
      have none := List.length_eq_zero_iff.mp empty.symm
      simp [State.runsAt, none]
    case isFalse => rfl
  exact Nat.le_trans (Nat.add_le_add_left runs.ge _) paid

private theorem resume_due (rules : UrlRules) {s : State} {op : StopOp}
    (waits : op ∈ s.stopping) (current : op.begin_ < op.end_)
    (ec : Option ErrorCode) (completed : Bool) :
    (op.resume completed ec s).due +
        runPrice ((Event.stopResumed op ec completed).runs rules s) + 1 ≤
      s.due := by
  have split := ((List.perm_cons_erase waits).map StopOp.due).sum_nat
  have paid := StopOp.loop_due
    { op with
      begin_ := op.begin_ + 1
      ec_ := if ec.isSome then ec else op.ec_ } completed ec
    { s with stopping := s.stopping.erase op }
    (Nat.succ_le_of_lt current)
  change (op.resume completed ec s).due +
    runPrice ((Event.stopResumed op ec completed).runs rules s) ≤ _ at paid
  simp only [List.map_cons, List.sum_cons, StopOp.due] at split
  simp only [State.due] at paid ⊢
  omega

private theorem work_due (rules : UrlRules) {s t : State} {index : Nat}
    (stepped : s.work index = some t) :
    t.due + runPrice ((Event.work index).runs rules s) + 1 ≤ s.due := by
  simp only [State.work] at stepped
  cases found : s.sessions[index]? with
  | none => simp [found] at stepped
  | some hosted =>
      cases queued : hosted.queued with
      | nil => simp [found, queued] at stepped
      | cons work rest =>
          simp only [found, queued, Option.some.injEq] at stepped
          subst stepped
          have exchanged := sum_set Hosted.due
            ({ hosted with queued := rest }.execute work) found
          have taken : hosted.due = work.price + 1 +
              (({ hosted with queued := rest } : Hosted).execute
                work).due := by
            rw [Hosted.due_execute]
            simp [Hosted.due, queued]
          have price : runPrice ((Event.work index).runs rules s) =
              work.price := by
            simp [Event.runs, found, queued, runPrice]
          rw [price]
          simp only [State.due]
          omega

theorem step_due {rules : UrlRules} {s t : State} {event : Event}
    (stepped : step rules s event = some t)
    (handler : event.ofSession = false)
    (walks : ∀ op ∈ s.stopping, op.begin_ < op.end_) :
    t.due + runPrice (event.runs rules s) + event.effort ≤
      s.due + event.price s := by
  cases event with
  | fetch uri completed =>
      cases stepped
      exact s.fetch_due rules uri completed
  | update update =>
      cases stepped
      exact Nat.le_refl _
  | stop graceful completed =>
      cases stepped
      exact stop_due rules s graceful completed
  | stopResumed op ec completed =>
      simp only [step] at stepped
      split at stepped
      case h_1 => cases stepped
      case h_2 hosted found =>
        split at stepped
        case isFalse => cases stepped
        case isTrue waits =>
          cases stepped
          exact resume_due rules waits.1 (walks op waits.1) ec completed
  | stopCalled op ec =>
      simp only [step] at stepped
      split at stepped
      case isFalse => cases stepped
      case isTrue posted =>
        cases stepped
        have shorter := List.length_erase_of_mem posted
        have some := List.length_pos_of_mem posted
        change (s.callStop op ec).due + 0 + 1 ≤ s.due + 0
        simp only [State.due, State.callStop, shorter]
        omega
  | work index => exact work_due rules stepped
  | post index posted isOpen => cases handler
  | resume index operation ec isOpen => cases handler

end Client

namespace Stack

open Client

variable {Byte Response : Type} {codec : Codec Byte Response}
  {rules : UrlRules} {requests : Nat → Request} {maxPending : Nat}

def State.potential (s : State Byte Response) : Nat :=
  (s.connections.map Connection.State.potential).sum + s.client.due

def Event.isCall : Event Byte → Bool
  | .client event => !event.isOwn
  | .session _ event => event.isCall

def Event.isChunk : Event Byte → Bool
  | .client _ => false
  | .session _ event => event.isChunk

/-- The event is no exception of `set_option`, whatever the endpoint. -/
def Event.noDelaySet : Event Byte → Bool
  | .client _ => true
  | .session _ event => event.noDelaySet

/-- `TCP_NODELAY` can be set on a socket of a plain session or of a tunnel. -/
def Event.setsNoDelay (s : State Byte Response) (event : Event Byte) : Prop :=
  event.Satisfies
    (fun endpoint event => event.setsNoDelay endpoint = true) s

instance (s : State Byte Response) (event : Event Byte) :
    Decidable (event.setsNoDelay s) :=
  match event with
  | .client _ => inferInstanceAs (Decidable True)
  | .session index event =>
      decidable_of_iff
        (s.client.sessions[index]?.all
          (fun hosted => event.setsNoDelay hosted.endpoint) = true)
        (by
          cases found : s.client.sessions[index]? <;>
            simp [Event.setsNoDelay, Event.Satisfies, found])

def Event.Steady (rules : UrlRules) (s : State Byte Response) :
    Event Byte → Prop
  | .client event => event.Steady rules s.client
  | .session _ _ => True

/-- No exception leaves a connect, and no iterator of a stop is invalidated. -/
def Event.Regular (rules : UrlRules) (s : State Byte Response)
    (event : Event Byte) : Prop :=
  event.setsNoDelay s ∧ event.Steady rules s

instance (s : State Byte Response) (event : Event Byte) :
    Decidable (event.Steady rules s) :=
  match event with
  | .client event => inferInstanceAs (Decidable (event.Steady rules s.client))
  | .session _ _ => inferInstanceAs (Decidable True)

instance (s : State Byte Response) (event : Event Byte) :
    Decidable (event.Regular rules s) :=
  inferInstanceAs (Decidable (_ ∧ _))

def Event.isOwn (event : Event Byte) : Bool :=
  !event.isCall && !event.isChunk && event.noDelaySet

def Event.price (s : State Byte Response) : Event Byte → Nat
  | .client event => event.price s.client
  | .session _ _ => 0

def Event.effort (event : Event Byte) : Nat :=
  if event.isCall || event.isChunk then 0 else 1

theorem Event.price_eq_zero (s : State Byte Response) (event : Event Byte)
    (own : event.isCall = false) : event.price s = 0 := by
  cases event with
  | session index event => rfl
  | client event => cases event <;> first | rfl | cases own

theorem Event.own_free (s : State Byte Response) (event : Event Byte)
    (own : event.isOwn = true) : event.price s < event.effort := by
  simp only [isOwn, Bool.and_eq_true, Bool.not_eq_true'] at own
  rw [event.price_eq_zero s own.1.1]
  simp [effort, own.1.1, own.1.2]

theorem Handles.pays {Allowed : SessionEndpoint → Connection.Event Byte → Prop}
    {s t : State Byte Response} {run : Option (Nat × Work)}
    (handles : Handles codec requests Allowed s t run) :
    (t.connections.map Connection.State.potential).sum ≤
      (s.connections.map Connection.State.potential).sum + runPrice run := by
  have called : ∀ {hosted : Hosted} {work : Work}
      {connection next : Connection.State Byte Response},
      Wire codec requests Allowed hosted connection →
      Connection.step codec (hosted.execute work).endpoint
        ((hosted.execute work).request requests) connection work.call =
          some next →
      next.potential ≤ connection.potential + work.price := by
    intro hosted work connection next wire stepped
    have paid := Connection.potential_pays.pays
      (wire.reached_execute work).reached stepped
    cases work with
    | push fetch => exact Nat.le_trans (Nat.le_add_right _ _) paid
    | stop graceful op => exact Nat.le_trans (Nat.le_add_right _ _) paid
  cases handles with
  | quiet pairs same => exact same ▸ Nat.le_refl _
  | @known index work hosted connection next known wire stepped sessions
      connections =>
      have paid := called wire stepped
      have exchanged := sum_set Connection.State.potential next known
      rw [connections]
      simp only [runPrice]
      omega
  | @created work hosted next wire stepped sessions connections =>
      have paid := called wire stepped
      have empty : ({} : Connection.State Byte Response).potential = 0 := rfl
      rw [connections]
      simp only [List.map_append, List.map_cons, List.map_nil, List.sum_append,
        List.sum_cons, List.sum_nil, runPrice]
      omega

theorem potential_pays :
    Machine.Potential (machine codec rules requests maxPending)
      (machine codec rules requests maxPending).Reached Event.price
      Event.effort State.potential where
  kept := fun reached stepped => reached.step trivial stepped
  pays := by
    intro before event after reached stepped
    have wired := reached_wired reached
    have told : step codec rules requests before event = some after := stepped
    cases event with
    | client event =>
        obtain ⟨handler, handled⟩ := step_client told
        obtain ⟨taken, handles⟩ := wired.handle_cases handler handled
        obtain ⟨sizes, walking⟩ := reached_walking (reached_client reached)
        have due := step_due taken handler fun op member =>
          (walking.stopping op member).current
        have paid := handles.pays
        have effort : (Event.client event : Event Byte).effort =
            event.effort := by
          cases own : event.isOwn <;>
            simp [Event.effort, Client.Event.effort, Event.isCall,
              Event.isChunk, own]
        rw [effort]
        simp only [State.potential, Event.price]
        omega
    | session index event =>
        obtain ⟨own, moved⟩ := step_session told
        obtain ⟨hosted, connection, next, found, known, wire, inner, client,
          connections⟩ := State.move_eq wired moved
        have paid := Connection.potential_pays.pays wire.reached.reached inner
        have exchanged := sum_set Connection.State.potential next known
        have due : after.client.due = before.client.due := by
          have same : ({ hosted with session := next.session } : Hosted).due =
              hosted.due := rfl
          rw [client]
          simp only [Client.State.due, map_set_same Hosted.due found same]
        have free := Connection.Event.cost_eq_zero event own
        change after.potential + event.effort ≤ before.potential + 0
        rw [State.potential, State.potential, due, connections]
        omega

theorem reached_potential {s : State Byte Response}
    (reached : (machine codec rules requests maxPending).Reached s) :
    s.potential ≤ s.client.bill 73 25 := by
  induction reached with
  | start => exact Nat.le_refl 0
  | @step before after event earlier _ stepped within =>
      have paid := potential_pays.pays earlier stepped
      have told : step codec rules requests before event = some after := stepped
      have wired := reached_wired earlier
      cases event with
      | client event =>
          obtain ⟨handler, handled⟩ := step_client told
          have taken := (wired.handle_cases handler handled).1
          have bills := (stepped_cases taken).bills 73 25
            (reached_sessions_le (reached_client earlier))
          simp only [Event.price, Client.Event.price] at paid
          omega
      | session index event =>
          obtain ⟨_, moved⟩ := step_session told
          obtain ⟨hosted, connection, next, found, known, wire, inner, client,
            connections⟩ := State.move_eq wired moved
          rw [client]
          exact Nat.le_trans (Nat.le_trans (Nat.le_add_right _ _) paid) within

theorem call_enabled {connection : Connection.State Byte Response}
    (idle : connection.completing = none) (hosted : Hosted) (work : Work) :
    ∃ next, Connection.step codec hosted.endpoint (hosted.request requests)
      connection work.call = some next := by
  cases work <;>
    simp [Work.call, Connection.step, idle, Connection.dispatch, Session.step]

theorem State.Wired.handle_enabled
    {Allowed : SessionEndpoint → Connection.Event Byte → Prop}
    {s : State Byte Response} (wired : s.Wired codec requests Allowed)
    (idle : ∀ connection ∈ s.connections, connection.completing = none)
    {event : Client.Event} (handler : event.ofSession = false)
    {client : Client.State}
    (taken : Client.step rules s.client event = some client) :
    ∃ t, s.handle codec rules requests event = some t := by
  have moved := step_moved taken handler
  have pairs : List.Forall₂ (Wire codec requests Allowed) s.client.sessions
    s.connections := wired
  simp only [State.handle, taken]
  generalize event.runs rules s.client = run at moved ⊢
  generalize after : client.sessions = sessions at moved
  cases moved with
  | same => exact ⟨_, rfl⟩
  | queued work found => exact ⟨_, rfl⟩
  | @ran index hosted rest work found =>
      obtain ⟨connection, known, wire⟩ := forall₂_getElem? pairs found
      have inside := (List.getElem?_eq_some_iff.mp found).1
      obtain ⟨next, stepped⟩ := @call_enabled _ _ codec requests _
        (idle connection (List.mem_of_getElem? known))
        (Hosted.execute work { hosted with queued := rest }) work
      simp only [State.advance, after, List.getElem?_set_self inside, known,
        Option.getD_some, stepped]
      exact ⟨_, rfl⟩
  | created endpoint work =>
      have same := pairs.length_eq
      obtain ⟨next, stepped⟩ := @call_enabled Byte Response codec requests {}
        rfl (Hosted.execute work { endpoint := endpoint }) work
      simp only [State.advance, after, List.getElem?_concat_length,
        List.getElem?_eq_none same.ge, Option.getD_none, stepped]
      exact ⟨_, rfl⟩

theorem reached_setting {s : State Byte Response}
    (reached : (machine codec rules requests maxPending).ReachedBy
      (fun before event => event.setsNoDelay before) s) :
    s.Wired codec requests
      (fun endpoint event => event.setsNoDelay endpoint = true) :=
  reachedBy_wired
    (fun endpoint work => by cases endpoint <;> cases work <;> rfl) reached

private theorem connection_atRest {s : State Byte Response} {index : Nat}
    {hosted : Hosted} {connection : Connection.State Byte Response}
    {event : Connection.Event Byte}
    (found : s.client.sessions[index]? = some hosted)
    (known : s.connections[index]? = some connection)
    (disabled : s.move codec requests index event = none) :
    Connection.step codec hosted.endpoint (hosted.request requests)
      connection event = none := by
  cases stepped : Connection.step codec hosted.endpoint
      (hosted.request requests) connection event with
  | none => rfl
  | some next =>
      simp [State.move, State.advance, found, known, stepped] at disabled

section

variable {s : State Byte Response}
  (reached : (machine codec rules requests maxPending).ReachedBy
    (fun before event => event.setsNoDelay before) s)
  (rests : (machine codec rules requests maxPending).AtRest Event.isOwn s)

include reached rests

private theorem completing_atRest :
    ∀ connection ∈ s.connections, connection.completing = none := by
  intro connection member
  obtain ⟨index, known⟩ := List.getElem?_of_mem member
  obtain ⟨hosted, found, wire⟩ :=
    forall₂_getElem? (reached_setting reached).flip known
  have disabled := rests (.session index .complete) rfl
  simp only [machine, step, Connection.Event.isCall,
    Connection.Event.isComplete, Bool.true_or, Bool.not_true, Bool.or_self,
    Bool.false_eq_true, if_false] at disabled
  exact Connection.idle_of_disabled
    (Connection.reached_linked wire.reached.reached)
    (connection_atRest found known disabled)

private theorem quiet_atRest : s.quiet = true := by
  simpa [State.quiet] using completing_atRest reached rests

private theorem session_atRest {index : Nat} {hosted : Hosted}
    (found : s.client.sessions[index]? = some hosted) :
    Session.machine.AtRest Session.Event.isOwn hosted.session := by
  obtain ⟨connection, known, wire⟩ :=
    forall₂_getElem? (reached_setting reached) found
  rw [← wire.session]
  refine Connection.session_atRest wire.reached fun event call chunk set =>
    connection_atRest found known ?_
  have disabled := rests (.session index event) (by
    simp [Event.isOwn, Event.isCall, Event.isChunk, Event.noDelaySet, call,
      chunk, set])
  simpa [machine, step, call, quiet_atRest reached rests] using disabled

theorem client_atRest :
    (Client.machine rules maxPending).AtRest Client.Event.isOwn s.client := by
  have advances : ∀ {index : Nat} {event : Session.Event} {t : Client.State},
      event.isOwn = true → s.client.advance index event ≠ some t := by
    intro index event t own advanced
    obtain ⟨hosted, next, found, stepped, _⟩ :=
      Client.State.advance_eq advanced
    have disabled := session_atRest reached rests found event own
    cases disabled.symm.trans stepped
  intro event own
  cases stepped : Client.step rules s.client event with
  | none => exact stepped
  | some client =>
      cases kind : event.ofSession with
      | false =>
          obtain ⟨t, handled⟩ := (reached_setting reached).handle_enabled
            (completing_atRest reached rests) kind stepped
          have disabled := rests (.client event) (by
            simp [Event.isOwn, Event.isCall, Event.isChunk, Event.noDelaySet,
              own])
          simp [machine, step, kind, quiet_atRest reached rests, handled]
            at disabled
      | true =>
          cases event with
          | post index handler isOpen => exact (advances rfl stepped).elim
          | resume index operation ec isOpen =>
              exact (advances rfl stepped).elim
          | _ => cases kind

end

theorem Event.regular_of_isOwn {event : Event Byte} (own : event.isOwn = true)
    (s : State Byte Response) : event.Regular rules s := by
  simp only [isOwn, Bool.and_eq_true, Bool.not_eq_true'] at own
  cases event with
  | client event =>
      have handler : event.isOwn = true := by simpa [isCall] using own.1.1
      exact ⟨trivial, Client.Event.steady_of_isOwn handler s.client⟩
  | session index event =>
      exact ⟨fun hosted _ =>
        Connection.Event.setsNoDelay_of_set own.2 hosted.endpoint, trivial⟩

/-- What becomes of a client on its transports that is not called any more. -/
structure Finishes (codec : Codec Byte Response) (rules : UrlRules)
    (requests : Nat → Request) (maxPending : Nat) (s : State Byte Response) :
    Prop where
  /-- the network can always bring it to rest -/
  rests : ∃ later final, (∀ event ∈ later, event.isOwn = true) ∧
    (machine codec rules requests maxPending).runWhere
      (fun before event => event.Regular rules before) s later = some final ∧
    (machine codec rules requests maxPending).AtRest Event.isOwn final
  /-- apart from the chunks of responses it never takes longer than this -/
  bounded : ∀ later final, (∀ event ∈ later, event.isCall = false) →
    (machine codec rules requests maxPending).run s later = some final →
    later.countP (fun event => !event.isChunk) ≤
      73 * s.client.fetches + s.client.stops * (25 * s.client.fetches + 1)
  /-- when it rests, the handler of each fetch has been called once, unless an
  exception took it along, and those of all stops have -/
  called : ∀ later final,
    (machine codec rules requests maxPending).runWhere
      (fun before event => event.Regular rules before) s later = some final →
    (machine codec rules requests maxPending).AtRest Event.isOwn final →
    (final.results.map (fun result => result.fetch.number) ++
        final.client.escaped.map Prod.fst).Perm
      (List.range final.client.fetches) ∧
    (final.client.stopCalls.map StopCall.op).Perm
      (List.range final.client.stops)

def haltedRun : List (Event Char) :=
  [.client (.fetch localUrl false), .session 0 (.post .processTask),
    .client (.stop .yes false),
    .session 0 (.answer 0 (.resolved (some .operationAborted) none false)),
    .session 0 .complete]

end Stack

end Fetchpp

import Fetchpp.Http.Proxy
import Fetchpp.Session.Interleaving

/-!
# The client

`client.hpp`, `client.cpp` and the operations of `core/detail/client.hpp`.  A
step is one handler that runs on the client's strand or on the strand of one
of its sessions, which is a strand over the client's.  What the client
dispatches to the strand of a session runs at once only if that strand has no
work; else it is queued there.

A fetch is known by its number in the order in which the fetches run, with the
URL of its request and the proxy that was selected.
-/

namespace Fetchpp.Client

open Http

structure Fetch where
  number : Nat
  uri : Url
  proxy : Option Proxy
  deriving DecidableEq, Repr

/-- The operations the client dispatches to the strand of a session: a
`push_op`, or the `stop_op` that a `client_stop_sessions_op` waits for. -/
inductive Work where
  | push (fetch : Fetch)
  | stop (graceful : GracefulShutdown) (op : Nat)
  deriving DecidableEq, Repr

/-- A session in the client's deque, and the work queued on its strand.
`pushed` lists the fetches by the number of their push, `stopped` the
operations of the client by the number of their stop. -/
structure Hosted where
  endpoint : SessionEndpoint
  session : Session.State := {}
  queued : List Work := []
  pushed : List Fetch := []
  stopped : List Nat := []
  deriving DecidableEq, Repr

namespace Hosted

def pendingTasks (hosted : Hosted) : Nat :=
  hosted.session.core.pendingTasks

def running (hosted : Hosted) : Bool :=
  hosted.session.core.running

/-- The strand has work: a handler the session posted, work queued before, or,
if `completed`, a completion one of its operations has already posted. -/
def busy (completed : Bool) (hosted : Hosted) : Bool :=
  !hosted.session.posts.isEmpty || !hosted.queued.isEmpty ||
    (completed && !hosted.session.operations.isEmpty)

/-- `push_op` or `stop_op` runs. -/
def execute (work : Work) (hosted : Hosted) : Hosted :=
  match work with
  | .push fetch =>
      { hosted with
        session := hosted.session.apply (Session.pushOp hosted.session.core)
        pushed := hosted.pushed ++ [fetch] }
  | .stop graceful op =>
      { hosted with
        session := hosted.session.apply
          (Session.stopOp graceful hosted.session.core)
        stopped := hosted.stopped ++ [op] }

/-- `net::dispatch` to the strand of the session -/
def dispatch (completed : Bool) (work : Work) (hosted : Hosted) : Hosted :=
  if hosted.busy completed then
    { hosted with queued := hosted.queued ++ [work] }
  else hosted.execute work

/-- The fetches that were handed to the session, run or not. -/
def handed (hosted : Hosted) : List Fetch :=
  hosted.pushed ++ hosted.queued.filterMap fun
    | .push fetch => some fetch
    | .stop _ _ => none

/-- The session has called the handler of this operation's stop. -/
def StopCalled (op : Nat) (ec : Option ErrorCode) (hosted : Hosted) : Prop :=
  ∃ call ∈ hosted.session.core.stopCalls,
    hosted.stopped[call.1]? = some op ∧ call.2 = ec

instance (op : Nat) (ec : Option ErrorCode) (hosted : Hosted) :
    Decidable (hosted.StopCalled op ec) :=
  inferInstanceAs (Decidable (∃ call ∈ _, _))

end Hosted

/-- `client_stop_sessions_op`; `begin_` and `end_` are positions. -/
structure StopOp where
  op : Nat
  graceful : GracefulShutdown
  begin_ : Nat
  end_ : Nat
  ec_ : Option ErrorCode := none
  deriving DecidableEq, Repr

/-- A call of the handler of an `async_stop`, and how many of the sessions in
the deque were running then. -/
structure StopCall where
  op : Nat
  ec : Option ErrorCode
  running : Nat
  deriving DecidableEq, Repr

/-- The members of `client`, followed by the operations in progress and what
has happened so far.  `stopPosts` are the handlers of `async_stop` that are
posted; `escaped` the exceptions that left a fetch; `danglingUses` counts the
uses of iterators after the deque has grown. -/
structure State where
  maxPending : Nat := 10
  sessions : List Hosted := []
  proxies : ProxyMap := {}
  fetches : Nat := 0
  stops : Nat := 0
  stopping : List StopOp := []
  stopPosts : List (Nat × Option ErrorCode) := []
  stopCalls : List StopCall := []
  escaped : List (Nat × Exception) := []
  danglingUses : Nat := 0

namespace State

/-- The `find_if` of `get_session`. -/
def findSession (endpoint : SessionEndpoint) (s : State) : Option Nat :=
  s.sessions.findIdx? (fun hosted =>
    endpoint.beq hosted.endpoint && hosted.pendingTasks < s.maxPending)

/-- `get_session`, with the index of the session. -/
def getSession (endpoint : SessionEndpoint) (s : State) : State × Nat :=
  match s.findSession endpoint with
  | some index => (s, index)
  | none =>
      ({ s with sessions := s.sessions ++ [{ endpoint := endpoint }] },
        s.sessions.length)

/-- `push_request` on the session that `get_session` returns. -/
def pushRequest (endpoint : SessionEndpoint) (fetch : Fetch)
    (completed : Bool) (s : State) : State :=
  let (s, index) := s.getSession endpoint
  { s with
    sessions := s.sessions.modify index
      (Hosted.dispatch completed (.push fetch)) }

end State

/-- The endpoint of the session a fetch asks for. -/
def fetchEndpoint (rules : UrlRules) (proxy : Option Proxy) (uri : Url) :
    Except Exception SessionEndpoint :=
  match proxy with
  | some proxy =>
      match toEndpoint rules false proxy.url with
      | .error exception => .error exception
      | .ok plain =>
          match toEndpoint rules true uri with
          | .error exception => .error exception
          | .ok target => .ok (.tunnel ⟨plain, target⟩)
  | none =>
      if isSslInvolved rules uri then
        (toEndpoint rules true uri).map .secure
      else
        (toEndpoint rules false uri).map .plain

/-- `client_fetch_op::operator()()` -/
def State.fetchOp (rules : UrlRules) (uri : Url) (completed : Bool)
    (s : State) : Except Exception State :=
  match selectProxy s.proxies uri with
  | .error exception => .error exception
  | .ok proxy =>
      match fetchEndpoint rules proxy uri with
      | .error exception => .error exception
      | .ok endpoint =>
          .ok (s.pushRequest endpoint ⟨s.fetches, uri, proxy⟩ completed)

/-- A fetch runs on the strand; an exception that leaves it takes the fetch's
handler along. -/
def State.fetch (rules : UrlRules) (uri : Url) (completed : Bool)
    (s : State) : State :=
  match s.fetchOp rules uri completed with
  | .ok after => { after with fetches := s.fetches + 1 }
  | .error exception =>
      { s with
        fetches := s.fetches + 1
        escaped := s.escaped ++ [(s.fetches, exception)] }

/-- `client_stop_sessions_op::operator()`, from the head of its loop.  Both
iterators are read there, and again where the session is taken.  Once the deque
has grown that is undefined, and the positions only stand for what may happen:
results about the stops are those of runs without it. -/
def StopOp.loop (op : StopOp) (completed : Bool) (ec : Option ErrorCode)
    (s : State) : State :=
  let dangling := if s.sessions.length = op.end_ then 0 else 1
  let s := { s with danglingUses := s.danglingUses + dangling }
  if op.begin_ ≠ op.end_ then
    { s with
      stopping := s.stopping ++ [op]
      sessions := s.sessions.modify op.begin_
        (Hosted.dispatch completed (.stop op.graceful op.op)) }
  else
    let ec := if op.ec_.isSome then some .operationAborted else ec
    { s with stopPosts := s.stopPosts ++ [(op.op, ec)] }

/-- `client_stop_sessions_op::operator()`, called by `async_stop`. -/
def State.stop (graceful : GracefulShutdown) (completed : Bool) (s : State) :
    State :=
  StopOp.loop ⟨s.stops, graceful, 0, s.sessions.length, none⟩ completed none
    { s with stops := s.stops + 1 }

/-- `client_stop_sessions_op::operator()`, resumed by a session. -/
def StopOp.resume (op : StopOp) (completed : Bool) (ec : Option ErrorCode)
    (s : State) : State :=
  { op with
    begin_ := op.begin_ + 1
    ec_ := if ec.isSome then ec else op.ec_ }.loop completed ec
      { s with stopping := s.stopping.erase op }

def State.callStop (op : Nat) (ec : Option ErrorCode) (s : State) : State :=
  { s with
    stopPosts := s.stopPosts.erase (op, ec)
    stopCalls := s.stopCalls ++ [⟨op, ec, s.sessions.countP Hosted.running⟩] }

/-- What `add_proxy` and `set_proxies` post on the strand. -/
inductive Update where
  | add (key : ProxyMatch) (proxy : Proxy)
  | set (proxies : ProxyMap)
  deriving DecidableEq, Repr

def Update.apply : Update → ProxyMap → ProxyMap
  | .add key proxy, proxies => proxies.emplace key proxy
  | .set proxies, _ => proxies

/-- `completed` tells whether a completion was already posted on the strand
of the session that is asked for. -/
inductive Event where
  | fetch (uri : Url) (completed : Bool)
  | update (update : Update)
  | stop (graceful : GracefulShutdown) (completed : Bool)
  /-- a session has called the handler the operation waits for -/
  | stopResumed (op : StopOp) (ec : Option ErrorCode) (completed : Bool)
  | stopCalled (op : Nat) (ec : Option ErrorCode)
  /-- the first work queued on the strand of a session -/
  | work (index : Nat)
  /-- a handler the session posted -/
  | post (index : Nat) (handler : Session.Posted) (isOpen : Bool)
  /-- the completion of an operation of the session -/
  | resume (index : Nat) (operation : Session.Operation)
      (ec : Option ErrorCode) (isOpen : Bool)
  deriving DecidableEq, Repr

def State.advance (index : Nat) (event : Session.Event) (s : State) :
    Option State :=
  match s.sessions[index]? with
  | none => none
  | some hosted =>
      match Session.step hosted.session event with
      | none => none
      | some next =>
          some { s with sessions :=
            s.sessions.set index { hosted with session := next } }

def State.work (index : Nat) (s : State) : Option State :=
  match s.sessions[index]? with
  | none => none
  | some hosted =>
      match hosted.queued with
      | [] => none
      | work :: rest =>
          some { s with sessions :=
            s.sessions.set index ({ hosted with queued := rest }.execute work) }

def step (rules : UrlRules) (s : State) : Event → Option State
  | .fetch uri completed => some (s.fetch rules uri completed)
  | .update update => some { s with proxies := update.apply s.proxies }
  | .stop graceful completed => some (s.stop graceful completed)
  | .stopResumed op ec completed =>
      match s.sessions[op.begin_]? with
      | none => none
      | some hosted =>
          if op ∈ s.stopping ∧ hosted.StopCalled op.op ec then
            some (op.resume completed ec s)
          else none
  | .stopCalled op ec =>
      if (op, ec) ∈ s.stopPosts then some (s.callStop op ec) else none
  | .work index => s.work index
  | .post index handler isOpen => s.advance index (.post handler isOpen)
  | .resume index operation ec isOpen =>
      s.advance index (.resume operation ec isOpen)

def machine (rules : UrlRules) (maxPending : Nat) :
    Lib.Machine State Event where
  start := { maxPending := maxPending }
  step := step rules

end Fetchpp.Client

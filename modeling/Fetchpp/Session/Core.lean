import Fetchpp.ErrorCode

/-!
# The session's own code

`session_base.cpp` and the operations of `session.hpp`, translated function by
function.  A handler that runs on the session's strand is a function on `Core`
that also returns what it asks of its surroundings, in order: handlers posted
on the strand, operations started on the transport, and uses of the timer.
`transport().is_open()` is answered by the surroundings, so it is an argument.

A push is known by its number in the order in which the `push_op`s run; the
number stands for the caller's request, response and handler.
-/

namespace Fetchpp.Session

abbrev PushId := Nat

/-- Where the coroutine of a `process_queue_op` stands. -/
inductive QueuePoint where
  | entry
  | connected
  | exchanged
  | closed
  deriving DecidableEq, Repr

/-- `process_queue_op`; `task` is the task it holds a reference to. -/
structure QueueOp where
  task : PushId
  lastEc : Option ErrorCode := none
  coro : QueuePoint := .entry
  firstRound : Bool := true
  deriving DecidableEq, Repr

/-- Handlers the session posts on its own strand. -/
inductive Posted where
  | processTask
  | advanceTask
  | retry (op : QueueOp)
  deriving DecidableEq, Repr

/-- The completion handler of an `async_transport_connect`. -/
inductive Connector where
  | start (handler : Nat)
  | queue (op : QueueOp)
  deriving DecidableEq, Repr

/-- The completion handler of an `async_close`. -/
inductive Closer where
  | queue (op : QueueOp)
  | stop (handler : Nat)
  deriving DecidableEq, Repr

inductive Effect where
  | post (handler : Posted)
  | connect (caller : Connector)
  | exchange (op : QueueOp)
  | close (graceful : GracefulShutdown) (caller : Closer)
  /-- `timer_.expires_after` followed by `timer_.async_wait` -/
  | wait (stop : Nat)
  | cancelTimer
  deriving DecidableEq, Repr

/-- The three places that post the completion handler of a push. -/
inductive Poster where
  | refusal
  | complete
  | cancel
  deriving DecidableEq, Repr

/-- A completion handler of a push posted on its executor. -/
structure Posting where
  push : PushId
  ec : Option ErrorCode
  poster : Poster
  deriving DecidableEq, Repr

/-- The members of `session_base` the code reads and writes, followed by what
has happened so far.  `posted` lists the completion handlers of pushes in the
order in which they were posted, `startCalls` and `stopCalls` the calls of the
handlers of `async_start` and `async_stop`. -/
structure Core where
  running : Bool := true
  tasks : List PushId := []
  pushes : Nat := 0
  starts : Nat := 0
  stops : Nat := 0
  accepted : List PushId := []
  refused : List PushId := []
  ran : List PushId := []
  popped : List PushId := []
  posted : List Posting := []
  startCalls : List (Nat × Option ErrorCode) := []
  stopCalls : List (Nat × Option ErrorCode) := []
  emptyPops : Nat := 0
  deriving DecidableEq, Repr

abbrev Outcome := Core × List Effect

def Core.setRunning (newState : Bool) (s : Core) : Core :=
  { s with running := newState }

def Core.pendingTasks (s : Core) : Nat :=
  s.tasks.length

def Core.hasTasks (s : Core) : Bool :=
  0 < s.pendingTasks

def Core.pushTask (task : PushId) (s : Core) : Core :=
  { s with tasks := s.tasks ++ [task], accepted := s.accepted ++ [task] }

/-- Posts the completion handler of a push on its associated executor. -/
def Core.postHandler (posting : Posting) (s : Core) : Core :=
  { s with posted := s.posted ++ [posting] }

/-- `pop_task`, whose assertion fails on an empty queue. -/
def Core.popTask (s : Core) : Core :=
  match s.tasks with
  | [] => { s with emptyPops := s.emptyPops + 1 }
  | front :: rest => { s with tasks := rest, popped := s.popped ++ [front] }

/-- `session_task::cancel` -/
def Core.cancelTask (task : PushId) (s : Core) : Core :=
  s.postHandler ⟨task, some .operationAborted, .cancel⟩

/-- The loop of `cancel_all_tasks`, over the tasks it finds in the queue. -/
def Core.cancelLoop : List PushId → Core → Core
  | [], s => s
  | front :: rest, s => Core.cancelLoop rest (s.cancelTask front).popTask

def Core.cancelAllTasks (s : Core) : Outcome :=
  (Core.cancelLoop s.tasks s, [.cancelTimer])

/-- `process_queue_op::complete` -/
def QueueOp.complete (op : QueueOp) (ec : Option ErrorCode) (s : Core) :
    Outcome :=
  (s.postHandler ⟨op.task, ec, .complete⟩, [.post .advanceTask])

/-- `process_queue_op::operator()` -/
def QueueOp.call (op : QueueOp) (ec : Option ErrorCode) (isOpen : Bool)
    (s : Core) : Outcome :=
  if !s.running || ec == some .operationAborted then
    op.complete (some .operationAborted) s
  else
    match op.coro with
    | .entry =>
        if !isOpen && s.running then
          (s, [.connect (.queue { op with coro := .connected })])
        else
          (s, [.exchange { op with coro := .exchanged }])
    | .connected =>
        match ec with
        | some error => op.complete (some error) (s.setRunning false)
        | none => (s, [.exchange { op with coro := .exchanged }])
    | .exchanged =>
        match ec with
        | some error =>
            (s, [.close .yes
              (.queue { op with lastEc := some error, coro := .closed })])
        | none => op.complete none s
    | .closed =>
        if op.firstRound then
          (s, [.post (.retry
            { op with coro := .entry, firstRound := false })])
        else
          op.complete op.lastEc (s.setRunning false)

/-- `session_task::run` -/
def Core.runTask (task : PushId) (isOpen : Bool) (s : Core) : Outcome :=
  QueueOp.call { task := task } none isOpen { s with ran := s.ran ++ [task] }

def Core.processTask (isOpen : Bool) (s : Core) : Outcome :=
  match s.tasks with
  | [] => (s, [])
  | front :: _ => s.runTask front isOpen

def Core.advanceTask (isOpen : Bool) (s : Core) : Outcome :=
  let s := s.popTask
  if s.running then s.processTask isOpen else s.cancelAllTasks

/-- `push_op::operator()` -/
def pushOp (s : Core) : Outcome :=
  let push := s.pushes
  let s := { s with pushes := push + 1 }
  if !s.running then
    ({ s with refused := s.refused ++ [push] }.postHandler
      ⟨push, some .operationAborted, .refusal⟩, [])
  else
    let s := s.pushTask push
    if s.pendingTasks == 1 then (s, [.post .processTask]) else (s, [])

/-- `start_op::operator()`, up to its connect. -/
def startOp (s : Core) : Outcome :=
  ({ s with starts := s.starts + 1 }.setRunning true,
    [.connect (.start s.starts)])

/-- `start_op` resumed by its connect. -/
def startConnected (handler : Nat) (ec : Option ErrorCode) (s : Core) :
    Outcome :=
  ({ s with startCalls := s.startCalls ++ [(handler, ec)] }, [])

/-- `stop_op::operator()`, up to its close. -/
def stopOp (graceful : GracefulShutdown) (s : Core) : Outcome :=
  ({ s with stops := s.stops + 1 }.setRunning false,
    [.close graceful (.stop s.stops)])

def callStopHandler (handler : Nat) (ec : Option ErrorCode) (s : Core) :
    Outcome :=
  ({ s with stopCalls := s.stopCalls ++ [(handler, ec)] }, [])

/-- `stop_op` resumed by its close. -/
def stopClosed (handler : Nat) (ec : Option ErrorCode) (s : Core) : Outcome :=
  if s.hasTasks then (s, [.wait handler]) else callStopHandler handler ec s

/-- `stop_op` resumed by the timer. -/
def stopWaited (handler : Nat) (ec : Option ErrorCode) (s : Core) : Outcome :=
  match ec with
  -- the timer was cancelled: all tasks have been cancelled
  | some .operationAborted => callStopHandler handler none s
  -- the timer has run out
  | none => callStopHandler handler (some .timedOut) s
  | some error => callStopHandler handler (some error) s

/-- Runs a handler posted on the strand. -/
def Posted.run (isOpen : Bool) : Posted → Core → Outcome
  | .processTask, s => s.processTask isOpen
  | .advanceTask, s => s.advanceTask isOpen
  | .retry op, s => op.call none isOpen s

end Fetchpp.Session

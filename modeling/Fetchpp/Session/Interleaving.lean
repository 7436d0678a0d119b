import Fetchpp.Lib.Machine
import Fetchpp.Session.Core

/-!
# Interleavings of a session

The strand runs one handler at a time.  A step is one handler: a call made by
the user, a handler the session posted, or the completion of an operation it
waits for.  Posted handlers and completions may be run in any order and an
operation of the transport may end at any time with any error code, so that
the runs below include those of every transport and of every order in which a
strand can execute its work.
-/

namespace Fetchpp.Session

/-- An asynchronous operation that has not resumed the session yet. -/
inductive Operation where
  | connect (caller : Connector)
  | exchange (op : QueueOp)
  | close (graceful : GracefulShutdown) (caller : Closer)
  | wait (stop : Nat) (cancelled : Bool)
  deriving DecidableEq, Repr

namespace Operation

/-- `expires_after` and `cancel` on the timer end every wait that is pending. -/
def cancelWait : Operation → Operation
  | .wait stop _ => .wait stop true
  | other => other

/-- A wait ends with `operation_aborted` only if it was cancelled. -/
def mayReport : Operation → Option ErrorCode → Bool
  | .wait _ cancelled, ec =>
      ec == none || (cancelled && ec == some .operationAborted)
  | _, _ => true

/-- The continuation that the completion of an operation runs. -/
def resume (isOpen : Bool) (ec : Option ErrorCode) (s : Core) :
    Operation → Outcome
  | .connect (.start handler) => startConnected handler ec s
  | .connect (.queue op) => op.call ec isOpen s
  | .exchange op => op.call ec isOpen s
  | .close _ (.queue op) => op.call ec isOpen s
  | .close _ (.stop handler) => stopClosed handler ec s
  | .wait stop _ => stopWaited stop ec s

end Operation

structure State where
  core : Core := {}
  posts : List Posted := []
  operations : List Operation := []
  deriving DecidableEq, Repr

namespace State

def perform (s : State) : Effect → State
  | .post handler => { s with posts := s.posts ++ [handler] }
  | .connect caller =>
      { s with operations := s.operations ++ [.connect caller] }
  | .exchange op => { s with operations := s.operations ++ [.exchange op] }
  | .close graceful caller =>
      { s with operations := s.operations ++ [.close graceful caller] }
  | .wait stop =>
      { s with operations :=
          s.operations.map Operation.cancelWait ++ [.wait stop false] }
  | .cancelTimer =>
      { s with operations := s.operations.map Operation.cancelWait }

def apply (s : State) (outcome : Outcome) : State :=
  outcome.2.foldl perform { s with core := outcome.1 }

@[simp] theorem apply_nil (s : State) (core : Core) :
    s.apply (core, []) = { s with core := core } := rfl

@[simp] theorem apply_cons_nil (s : State) (core : Core) (effect : Effect) :
    s.apply (core, [effect]) = { s with core := core }.perform effect := rfl

end State

inductive Event where
  | push
  | start
  | stop (graceful : GracefulShutdown)
  | post (handler : Posted) (isOpen : Bool)
  | resume (operation : Operation) (ec : Option ErrorCode) (isOpen : Bool)
  deriving DecidableEq, Repr

def step (s : State) : Event → Option State
  | .push => some (s.apply (pushOp s.core))
  | .start => some (s.apply (startOp s.core))
  | .stop graceful => some (s.apply (stopOp graceful s.core))
  | .post handler isOpen =>
      if handler ∈ s.posts then
        some ({ s with posts := s.posts.erase handler }.apply
          (handler.run isOpen s.core))
      else none
  | .resume operation ec isOpen =>
      if operation ∈ s.operations ∧ operation.mayReport ec = true then
        some ({ s with operations := s.operations.erase operation }.apply
          (operation.resume isOpen ec s.core))
      else none

def machine : Lib.Machine State Event where
  start := {}
  step := step

end Fetchpp.Session

import Fetchpp.Session.Rounds
import Fetchpp.Connection.GivingUp

/-!
# Requests that are sent a second time

`process_queue_op` tries every request again whose first exchange has failed,
while its comment has this rule for reused connections only.  In a run in which
first exchanges fail on reused connections only, a request is sent a second
time on account of a reused connection, and once on a connection of its own.
-/

namespace Fetchpp

namespace Connection

open Session Http Lib

variable {Byte Response : Type} {codec : Codec Byte Response}
  {endpoint : SessionEndpoint} {request : PushId → Request}

/-- What happens on the connections of a transport. -/
inductive Use where
  /-- a connect of the caller begins to make the connection -/
  | opened (connection : Nat) (caller : Connector)
  /-- the exchange of a request that was written on the connection ends -/
  | exchanged (push : PushId) (connection : Nat) (ec : Option ErrorCode)
  deriving DecidableEq, Repr

/-- What a step writes into the log. -/
def State.uses (codec : Codec Byte Response) (endpoint : SessionEndpoint)
    (s : State Byte Response) : Event Byte → List Use
  | .answer index answer =>
      match s.flights[index]? with
      | none => []
      | some flight =>
          match flight.operation, flight.point.resume codec endpoint
              flight.stream s.transport answer with
          | .connect caller, some (_, .await .connecting) =>
              [.opened (s.connection + 1) caller]
          | _, _ => []
  | .complete =>
      match s.completing with
      | some ⟨.exchange op, ec, _⟩ =>
          (s.lastAttempt op.task).toList.map
            (fun attempt => .exchanged op.task attempt.connection ec)
      | _ => []
  | _ => []

abbrev usedMachine (codec : Codec Byte Response) (endpoint : SessionEndpoint)
    (request : PushId → Request) :
    Machine (State Byte Response × List Use) (Event Byte) :=
  (machine codec endpoint request).logged
    (fun s event => s.uses codec endpoint event)

/-- A connection that had this use is a reused one: `async_start` has opened
it, or a request was completed on it. -/
def Use.Reuses (connection : Nat) : Use → Prop
  | .opened made (.start _) => made = connection
  | .opened _ (.queue _) => False
  | .exchanged _ used ec => used = connection ∧ ec = none

instance (connection : Nat) : (use : Use) → Decidable (use.Reuses connection)
  | .opened made (.start _) => inferInstanceAs (Decidable (made = connection))
  | .opened _ (.queue _) => inferInstanceAs (Decidable False)
  | .exchanged _ used ec =>
      inferInstanceAs (Decidable (used = connection ∧ ec = none))

def Reused (log : List Use) (connection : Nat) : Prop :=
  ∃ use ∈ log, use.Reuses connection

instance (log : List Use) (connection : Nat) :
    Decidable (Reused log connection) :=
  inferInstanceAs (Decidable (∃ use ∈ log, use.Reuses connection))

/-- The request whose first exchange has failed, if one has. -/
def Completing.firstFailure : Completing → Option PushId
  | ⟨.exchange op, some error, _⟩ =>
      if op.firstRound && error != .operationAborted then some op.task else none
  | _ => none

/-- A first exchange that fails does so on a reused connection. -/
def Event.FailsReused (s : State Byte Response × List Use) :
    Event Byte → Prop
  | .complete =>
      ∀ push ∈ s.1.completing.bind Completing.firstFailure,
        ∀ attempt ∈ s.1.lastAttempt push, Reused s.2 attempt.connection
  | _ => True

instance (s : State Byte Response × List Use) :
    (event : Event Byte) → Decidable (event.FailsReused s)
  | .complete => inferInstanceAs (Decidable
      (∀ push ∈ s.1.completing.bind Completing.firstFailure,
        ∀ attempt ∈ s.1.lastAttempt push, Reused s.2 attempt.connection))
  | .push | .start | .stop _ | .post _ | .timer _ _ _ | .answer _ _ =>
      inferInstanceAs (Decidable True)

/-- The requests that were written for a push; the first one is the last. -/
def State.attemptsOf (push : PushId) (s : State Byte Response) :
    List Attempt :=
  s.attempts.filter (fun attempt => attempt.push = push)

/-- The first exchange of the request failed on a connection that was a reused
one by then. -/
def FailedReused (log : List Use) (push : PushId) : Prop :=
  ∃ before after connection error,
    log = before ++ .exchanged push connection (some error) :: after ∧
    (∀ used ec, .exchanged push used ec ∉ before) ∧ Reused before connection

/-- The request was first written on a connection that its own processing had
opened. -/
def OwnConnection (s : State Byte Response × List Use) (push : PushId) :
    Prop :=
  ∃ attempt op, (s.1.attemptsOf push).getLast? = some attempt ∧
    .opened attempt.connection (.queue op) ∈ s.2 ∧ op.task = push

/-- The rule of the comment in `process_queue_op`. -/
structure OnceOnFresh (s : State Byte Response × List Use) (push : PushId) :
    Prop where
  again : 2 ≤ (s.1.attemptsOf push).length → FailedReused s.2 push
  once : OwnConnection s push → (s.1.attemptsOf push).length ≤ 1
  reported : OwnConnection s push → ∀ connection error,
    .exchanged push connection (some error) ∈ s.2 →
    ⟨push, some error, .complete⟩ ∈ s.1.session.core.posted

theorem FailedReused.append {log : List Use} {push : PushId}
    (failed : FailedReused log push) (uses : List Use) :
    FailedReused (log ++ uses) push := by
  obtain ⟨before, after, connection, error, rfl, first, reused⟩ := failed
  exact ⟨before, after ++ uses, connection, error, by simp, first, reused⟩

namespace State

/-- The log goes on, and so do the attempts of the request. -/
structure Extends (s t : State Byte Response) (uses : List Use)
    (push : PushId) : Prop where
  attempts : ∃ more, t.attemptsOf push = more ++ s.attemptsOf push
  opened : ∀ connection caller, .opened connection caller ∈ uses →
    s.connection < connection

theorem attemptsOf_connection {s : State Byte Response}
    (numbered : s.Numbered) {push : PushId} {attempt : Attempt}
    (member : attempt ∈ s.attemptsOf push) :
    attempt.connection ≤ s.connection :=
  numbered attempt (List.mem_of_mem_filter member)

theorem Extends.ownConnection {s t : State Byte Response} {log uses : List Use}
    {push : PushId} (extension : s.Extends t uses push)
    (numbered : s.Numbered) (written : s.attemptsOf push ≠ [])
    (own : OwnConnection (t, log ++ uses) push) :
    OwnConnection (s, log) push := by
  obtain ⟨attempt, op, first, opened, task⟩ := own
  obtain ⟨more, attempts⟩ := extension.attempts
  have same : (s.attemptsOf push).getLast? = some attempt := by
    simp only [attempts] at first
    rwa [List.getLast?_append_of_ne_nil _ written] at first
  refine ⟨attempt, op, same, ?_, task⟩
  rcases List.mem_append.mp opened with old | new
  · exact old
  · have later := extension.opened _ _ new
    have earlier := attemptsOf_connection numbered
      (List.mem_of_getLast? same)
    omega

/-- The request has failed on a reused connection. -/
structure Failed (s : State Byte Response) (log : List Use) (push : PushId) :
    Prop where
  written : s.attemptsOf push ≠ []
  reused : FailedReused log push
  notOwn : ¬OwnConnection (s, log) push

theorem Failed.extended {s t : State Byte Response} {log uses : List Use}
    {push : PushId} (failed : s.Failed log push)
    (extension : s.Extends t uses push) (numbered : s.Numbered) :
    t.Failed (log ++ uses) push := by
  refine ⟨?_, failed.reused.append uses, ?_⟩
  · obtain ⟨more, attempts⟩ := extension.attempts
    rw [attempts]
    exact List.append_ne_nil_of_right_ne_nil _ failed.written
  · intro own
    exact failed.notOwn
      (extension.ownConnection numbered failed.written own)

theorem Failed.onceOnFresh {s : State Byte Response} {log : List Use}
    {push : PushId} (failed : s.Failed log push) :
    OnceOnFresh (s, log) push where
  again _ := failed.reused
  once own := (failed.notOwn own).elim
  reported own := (failed.notOwn own).elim

end State

theorem OnceOnFresh.extended {s t : State Byte Response} {log uses : List Use}
    {push : PushId} (holds : OnceOnFresh (s, log) push)
    (numbered : s.Numbered) (attempts : t.attemptsOf push = s.attemptsOf push)
    (opened : ∀ connection caller, .opened connection caller ∈ uses →
      s.connection < connection)
    (unexchanged : ∀ connection ec, .exchanged push connection ec ∉ uses)
    (posted : s.session.core.posted ⊆ t.session.core.posted) :
    OnceOnFresh (t, log ++ uses) push := by
  have extension : s.Extends t uses push := ⟨⟨[], attempts⟩, opened⟩
  have before : OwnConnection (t, log ++ uses) push →
      OwnConnection (s, log) push := by
    intro own
    refine extension.ownConnection numbered ?_ own
    intro unwritten
    obtain ⟨attempt, _, first, _⟩ := own
    simp [attempts, unwritten] at first
  refine ⟨?_, ?_, ?_⟩
  · intro twice
    simp only [attempts] at twice
    exact (holds.again twice).append uses
  · intro own
    simp only [attempts]
    exact holds.once (before own)
  · intro own connection error exchanged
    rcases List.mem_append.mp exchanged with old | new
    · exact posted (holds.reported (before own) connection error old)
    · exact (unexchanged _ _ new).elim

namespace State

/-- What is known of the request in hand. -/
inductive InHand (s : State Byte Response) (log : List Use) (op : QueueOp) :
    Prop where
  /-- its first exchange is still to come, or is going on -/
  | first (firstRound : op.firstRound = true)
      (point : op.coro = .connected ∧ s.attemptsOf op.task = [] ∨
        op.coro = .exchanged ∧ (s.attemptsOf op.task).length ≤ 1)
      (unexchanged : ∀ connection ec, .exchanged op.task connection ec ∉ log)
      (own : ∀ connection other, .opened connection (.queue other) ∈ log →
        other.task = op.task → ∀ attempt ∈ s.attempts,
        attempt.connection = connection → attempt.push = op.task)
  /-- its first exchange has failed -/
  | again (later : op.firstRound = false ∨ op.coro = .closed)
      (failed : s.Failed log op.task)

theorem InHand.once {s : State Byte Response} {log : List Use} {op : QueueOp}
    (inHand : s.InHand log op) : OnceOnFresh (s, log) op.task := by
  cases inHand with
  | again later failed => exact failed.onceOnFresh
  | first firstRound point unexchanged own =>
      have atMostOne : (s.attemptsOf op.task).length ≤ 1 := by
        rcases point with ⟨_, none⟩ | ⟨_, one⟩
        · simp [none]
        · exact one
      refine ⟨?_, fun _ => atMostOne, ?_⟩
      · intro twice
        have both : 2 ≤ 1 := Nat.le_trans twice atMostOne
        exact absurd both (by decide)
      · intro _ connection error exchanged
        exact (unexchanged _ _ exchanged).elim

theorem Failed.goes {s : State Byte Response} {log : List Use}
    {op next : QueueOp} {ec : Option ErrorCode}
    (failed : s.Failed log op.task)
    (later : op.firstRound = false ∨ op.coro = .closed)
    (follows : op.Follows ec next) : s.InHand log next := by
  refine .again ?_ (follows.task ▸ failed)
  cases follows with
  | connects entry =>
      exact .inl (later.resolve_right (by simp [entry]))
  | exchanges point =>
      refine .inl (later.resolve_right ?_)
      rcases point with entry | connected
      · simp [entry]
      · simp [connected]
  | closes error exchanged => exact .inr rfl
  | retries closed first => exact .inl rfl

/-- What the log of a run tells. -/
structure Ledger (s : State Byte Response) (log : List Use) : Prop where
  numbered : s.Numbered
  opened : ∀ connection caller, .opened connection caller ∈ log →
    connection ≤ s.connection ∧
      ∀ op, caller = .queue op → op.task ∈ s.session.core.ran
  opener : ∀ connection caller other, .opened connection caller ∈ log →
    .opened connection other ∈ log → caller = other
  exchanged : ∀ push connection ec, .exchanged push connection ec ∈ log →
    ∃ attempt ∈ s.attempts, attempt.push = push ∧
      attempt.connection = connection
  waiting : ∀ waiting ∈ s.waiting, ∀ op, waiting.operation = .exchange op →
    s.attemptsOf op.task ≠ []
  completing : ∀ op ec cancelTimer,
    s.completing = some ⟨.exchange op, ec, cancelTimer⟩ →
    s.attemptsOf op.task ≠ [] ∨ ec = some .operationAborted
  inHand : ∀ op, .queueOp op ∈ s.session.drivers → s.InHand log op
  once : ∀ push, OnceOnFresh (s, log) push

end State

theorem Answered.uses {s t : State Byte Response} {index : Nat}
    {answer : Answer Byte}
    (answered : Answered codec endpoint s index answer t) :
    t.attempts = s.attempts ∧
      (s.uses codec endpoint (.answer index answer) = [] ∨
      ∃ caller, answered.flight.operation = .connect caller ∧
        t.connection = s.connection + 1 ∧
        s.uses codec endpoint (.answer index answer) =
          [.opened (s.connection + 1) caller]) := by
  have kept : ∀ u : State Byte Response,
      (u.hear answered.flight.point answer).attempts = u.attempts ∧
      (u.hear answered.flight.point answer).connection = u.connection := by
    intro u
    unfold State.hear
    split <;> exact ⟨rfl, rfl⟩
  obtain ⟨attempts, connection⟩ := kept
    { s with flights := s.flights.eraseIdx index, completing := none }
  have after := answered.after
  refine ⟨?_, ?_⟩
  · have notWriting := Point.resume_ne_writing answered.resumed
    have entering : ∀ u : State Byte Response,
        (u.enter answered.flight.operation answered.next).attempts =
          u.attempts := by
      intro u
      have same : (u.setTransport answered.next.1).attempts = u.attempts := by
        unfold State.setTransport
        split <;> rfl
      unfold State.enter
      split
      case h_1 point awaits =>
        unfold State.record
        split
        case h_1 => exact same
        case h_2 => exact (notWriting _ awaits).elim
        case h_3 => exact same
      case h_2 => exact same
      case h_3 => exact same
      case h_4 => exact same
      case h_5 => exact same
    rw [after, entering, attempts]
  · simp only [State.uses, answered.member, answered.resumed]
    split
    case h_1 caller u operation opens =>
      refine .inr ⟨caller, operation, ?_, rfl⟩
      have next : answered.next = (u, .await .connecting) :=
        Option.some.inj opens
      rw [after, next]
      have same : ∀ v : State Byte Response,
          (v.enter answered.flight.operation (u, .await .connecting)).connection
            = v.connection + 1 := by
        intro v
        simp only [State.enter, State.record]
        unfold State.setTransport
        split <;> rfl
      rw [same, connection]
    case h_2 => exact .inl rfl

namespace State.Ledger

theorem inHand_opened {s t : State Byte Response} {log uses : List Use}
    {op : QueueOp} (inHand : s.InHand log op) (numbered : s.Numbered)
    (attempts : t.attempts = s.attempts)
    (opened : ∀ use ∈ uses, ∃ caller, use = .opened (s.connection + 1) caller) :
    t.InHand (log ++ uses) op := by
  have same : t.attemptsOf op.task = s.attemptsOf op.task := by
    simp only [attemptsOf, attempts]
  cases inHand with
  | again later failed =>
      refine .again later (failed.extended ⟨⟨[], same⟩, ?_⟩ numbered)
      intro connection caller member
      obtain ⟨_, equal⟩ := opened _ member
      cases equal
      exact Nat.lt_succ_self _
  | first firstRound point unexchanged own =>
      refine .first firstRound (by rwa [same]) ?_ ?_
      · intro connection ec member
        rcases List.mem_append.mp member with old | new
        · exact unexchanged _ _ old
        · obtain ⟨_, equal⟩ := opened _ new
          cases equal
      · intro connection other member task attempt written here
        rw [attempts] at written
        rcases List.mem_append.mp member with old | new
        · exact own connection other old task attempt written here
        · obtain ⟨_, equal⟩ := opened _ new
          cases equal
          have bounded := numbered attempt written
          omega

theorem opens {s t : State Byte Response} {index : Nat} {answer : Answer Byte}
    (answered : Answered codec endpoint s index answer t) {use : Use}
    (member : use ∈ s.uses codec endpoint (.answer index answer)) :
    ∃ caller, use = .opened (s.connection + 1) caller := by
  rcases answered.uses.2 with none | ⟨caller, _, _, one⟩
  · simp [none] at member
  · rw [one] at member
    exact ⟨caller, List.mem_singleton.mp member⟩

theorem opened_answered {s t : State Byte Response} {log : List Use}
    (ledger : s.Ledger log) (linked : s.Linked)
    (invariant : s.session.Invariant) {index : Nat} {answer : Answer Byte}
    (answered : Answered codec endpoint s index answer t) {connection : Nat}
    {caller : Connector}
    (member : .opened connection caller ∈
      log ++ s.uses codec endpoint (.answer index answer)) :
    connection ≤ t.connection ∧
      ∀ op, caller = .queue op → op.task ∈ t.session.core.ran := by
  have session : t.session = s.session := answered.entered.session
  rw [session]
  rcases List.mem_append.mp member with old | new
  · obtain ⟨bounded, ran⟩ := ledger.opened connection caller old
    exact ⟨Nat.le_trans bounded answered.recorded.connection, ran⟩
  · rcases answered.uses.2 with none | ⟨other, operation, later, one⟩
    · simp [none] at new
    · rw [one, List.mem_singleton] at new
      cases new
      refine ⟨Nat.le_of_eq later.symm, ?_⟩
      rintro op rfl
      have member := linked.mem answered.waited
      rw [operation] at member
      exact invariant.driver_ran (Session.State.mem_drivers member rfl)

theorem opener_answered {s t : State Byte Response} {log : List Use}
    (ledger : s.Ledger log) {index : Nat} {answer : Answer Byte}
    (answered : Answered codec endpoint s index answer t) {connection : Nat}
    {caller other : Connector}
    (first : .opened connection caller ∈
      log ++ s.uses codec endpoint (.answer index answer))
    (second : .opened connection other ∈
      log ++ s.uses codec endpoint (.answer index answer)) :
    caller = other := by
  have fresh : ∀ maker, .opened (s.connection + 1) maker ∉ log := by
    intro maker member
    have bounded := (ledger.opened _ _ member).1
    omega
  rcases List.mem_append.mp first with old | new
  · rcases List.mem_append.mp second with old' | new'
    · exact ledger.opener connection caller other old old'
    · obtain ⟨_, equal⟩ := opens answered new'
      cases equal
      exact (fresh _ old).elim
  · rcases List.mem_append.mp second with old' | new'
    · obtain ⟨_, equal⟩ := opens answered new
      cases equal
      exact (fresh _ old').elim
    · rcases answered.uses.2 with none | ⟨maker, _, _, one⟩
      · simp [none] at new
      · rw [one, List.mem_singleton] at new new'
        cases new
        cases new'
        rfl

theorem answered {s t : State Byte Response} {log : List Use}
    (ledger : s.Ledger log) (linked : s.Linked)
    (invariant : s.session.Invariant) {index : Nat} {answer : Answer Byte}
    (answered : Answered codec endpoint s index answer t) :
    t.Ledger (log ++ s.uses codec endpoint (.answer index answer)) := by
  have attempts := answered.uses.1
  have entered := answered.entered
  have session : t.session = s.session := entered.session
  have sameOf : ∀ push, t.attemptsOf push = s.attemptsOf push := by
    intro push
    simp only [attemptsOf, attempts]
  refine
    { numbered := answered.recorded.numbered ledger.numbered
      opened := fun _ _ => ledger.opened_answered linked invariant answered
      opener := fun _ _ _ => ledger.opener_answered answered
      exchanged := ?_
      waiting := ?_
      completing := ?_
      inHand := ?_
      once := ?_ }
  · intro push connection ec member
    rw [attempts]
    rcases List.mem_append.mp member with old | new
    · exact ledger.exchanged push connection ec old
    · obtain ⟨_, equal⟩ := opens answered new
      cases equal
  · intro waiting member op operation
    rw [sameOf]
    rcases answered.waits member with earlier | ⟨_, _, rfl⟩
    · exact ledger.waiting waiting earlier op operation
    · exact ledger.waiting _ answered.waited op operation
  · intro op ec cancelTimer ends
    left
    rw [sameOf]
    have completion := entered.completing
    rw [ends, Option.or_none] at completion
    have same := State.completion_operation completion.symm
    exact ledger.waiting _ answered.waited op same.symm
  · intro op drives
    rw [session] at drives
    exact inHand_opened (ledger.inHand op drives) ledger.numbered attempts
      fun _ => opens answered
  · intro push
    refine (ledger.once push).extended ledger.numbered (sameOf push) ?_ ?_ ?_
    · intro connection caller member
      obtain ⟨_, equal⟩ := opens answered member
      cases equal
      exact Nat.lt_succ_self _
    · intro connection ec member
      obtain ⟨_, equal⟩ := opens answered member
      cases equal
    · rw [session]
      exact List.Subset.refl _

end State.Ledger

@[simp] theorem State.handled_attempts (cancelTimer : Bool)
    (s : State Byte Response) :
    (s.handled cancelTimer).attempts = s.attempts := by
  unfold handled
  split <;> rfl

/-- What becomes of the exchange a handler of the session starts. -/
inductive Launches (s t : State Byte Response) (effects : List Effect) :
    Prop where
  | nothing (attempts : t.attempts = s.attempts)
      (waiting : ∀ waiting ∈ t.waiting, ∀ op,
        waiting.operation = .exchange op → waiting ∈ s.waiting)
      (completing : ∀ op ec cancelTimer,
        t.completing ≠ some ⟨.exchange op, ec, cancelTimer⟩)
  | writes (next : QueueOp) (started : effects = [.exchange next])
      (attempt : Attempt) (push : attempt.push = next.task)
      (attempts : t.attempts = attempt :: s.attempts)
      (waiting : ∀ waiting ∈ t.waiting, waiting ∈ s.waiting ∨
        waiting.operation = .exchange next)
      (completing : t.completing = none)
  /-- the transport is not running -/
  | refuses (next : QueueOp) (attempts : t.attempts = s.attempts)
      (waiting : t.waiting = s.waiting)
      (completing : t.completing =
        some ⟨.exchange next, some .operationAborted, false⟩)

theorem State.Entered.launches {s u v t : State Byte Response}
    {operation : Operation} {next : Step Byte Response}
    (entered : s.Entered operation next t) (idle : s.completing = none)
    (waiting : s.waiting = v.waiting) (recorded : u.Recorded operation t)
    (attempts : u.attempts = v.attempts)
    (other : ∀ op, operation ≠ .exchange op) (effects : List Effect) :
    Launches v t effects := by
  refine .nothing ?_ ?_ ?_
  · rcases recorded.attempts with same | ⟨op, _, exchange, _⟩
    · exact same.trans attempts
    · exact (other op exchange).elim
  · intro waits member op exchange
    rw [← waiting]
    rcases entered.waits member with earlier | ⟨_, _, rfl⟩
    · exact earlier
    · exact (other op exchange).elim
  · intro op ec cancelTimer ends
    have completion := entered.completing
    rw [ends, idle, Option.or_none] at completion
    exact other op (State.completion_operation completion.symm).symm

theorem State.launches_exchange (s : State Byte Response)
    (session : Session.State) (op : QueueOp) :
    Launches s ((s.resumed session).launch endpoint request (.exchange op))
      [.exchange op] := by
  cases running : s.transport.running with
  | false =>
      have ended : (s.resumed session).launch endpoint request (.exchange op) =
          { (s.resumed session).setTransport s.transport.cancelTimer with
            completing :=
              some ⟨.exchange op, some .operationAborted, false⟩ } := by
        simp [launch, enter, processOne, resumed, running]
      rw [ended]
      refine .refuses op ?_ ?_ rfl
      · simp only [setTransport]
        split <;> rfl
      · exact (s.resumed session).waiting_setTransport _
  | true =>
      have waits : (s.resumed session).launch endpoint request (.exchange op) =
          State.record (.exchange op) (.exchanging (.writing (request op.task)))
            { (s.resumed session).setTransport s.transport.setupTimer with
              flights :=
                ((s.resumed session).setTransport
                    s.transport.setupTimer).flights ++
                  [⟨⟨.exchange op, .exchanging (.writing (request op.task)),
                    s.transport.setupTimer.stream⟩, false⟩] } := by
        simp [launch, enter, processOne, resumed, running]
      rw [waits]
      refine .writes op rfl
        ⟨op.task, s.connection, s.onConnection.length⟩ rfl ?_ ?_ ?_
      · simp only [record, setTransport]
        split <;> rfl
      · intro waiting member
        have kept := (s.resumed session).waiting_setTransport
          s.transport.setupTimer
        simp only [State.waiting, record, List.map_append] at member kept
        rw [kept] at member
        rcases List.mem_append.mp member with earlier | added
        · exact .inl earlier
        · rw [List.map_singleton, List.mem_singleton] at added
          exact .inr (congrArg Waiting.operation added)
      · simp only [record, setTransport]
        split <;> rfl

theorem Launches.handled {s t : State Byte Response} {effects : List Effect}
    (launches : Launches s t effects) (cancelTimer : Bool) :
    Launches s (t.handled cancelTimer) effects := by
  cases launches with
  | nothing attempts waiting completing =>
      exact .nothing (by simpa using attempts) (by simpa using waiting)
        (by simpa using completing)
  | writes next started attempt push attempts waiting completing =>
      exact .writes next started attempt push (by simpa using attempts)
        (by simpa using waiting) (by simpa using completing)
  | refuses next attempts waiting completing =>
      exact .refuses next (by simpa using attempts) (by simpa using waiting)
        (by simpa using completing)

theorem Handled.launches {s t : State Byte Response} {event : Session.Event}
    (points : s.session.AtPoints)
    (handled : Handled endpoint request s event t) :
    Launches s t (event.outcome s.session.core).2 := by
  rcases handled.cases points with quiet |
    ⟨effect, operation, next, _, one, begun, launched⟩
  · have idle : Launches s (s.resumed handled.session)
        (event.outcome s.session.core).2 := by
      refine .nothing rfl (fun waiting member _ _ => member) ?_
      intro op ec cancelTimer ends
      cases ends
    rw [quiet]
    exact idle.handled _
  · rw [launched, one]
    apply Launches.handled
    have entered : (s.resumed handled.session).Entered operation next
        ((s.resumed handled.session).launch endpoint request effect) :=
      State.launch_entered begun
    cases effect with
    | post handler => cases begun
    | wait stop => cases begun
    | cancelTimer => cases begun
    | exchange op => exact s.launches_exchange handled.session op
    | connect caller =>
        cases begun
        exact entered.launches (v := s) rfl rfl
          (State.enter_recorded (.connect caller)
            (connect endpoint s.transport) (s.resumed handled.session))
          rfl nofun _
    | close graceful caller =>
        cases begun
        refine entered.launches (v := s) rfl rfl
          (State.enter_recorded (.close graceful caller)
            (close endpoint graceful s.transport)
            (s.resumed handled.session).cancelForClose) ?_ nofun _
        unfold State.cancelForClose
        split <;> rfl

/-- The exchange whose end is written into the log. -/
inductive State.Logs (s : State Byte Response) (event : Session.Event) :
    List Use → Prop where
  | nothing (other : ∀ op ec isOpen, event ≠ .resume (.exchange op) ec isOpen) :
      Logs s event []
  | ends {op : QueueOp} {ec : Option ErrorCode} {cancelTimer isOpen : Bool}
      (completing : s.completing = some ⟨.exchange op, ec, cancelTimer⟩)
      (resumes : event = .resume (.exchange op) ec isOpen) :
      Logs s event ((s.lastAttempt op.task).toList.map
        (fun attempt => .exchanged op.task attempt.connection ec))

theorem State.logs (s : State Byte Response) {event : Event Byte}
    {event' : Session.Event} (label : event.label s = some event') :
    s.Logs event' (s.uses codec endpoint event) := by
  cases event with
  | answer index answer => cases label
  | push =>
      obtain rfl := Option.some.inj label
      exact .nothing (fun _ _ _ other => by cases other)
  | start =>
      obtain rfl := Option.some.inj label
      exact .nothing (fun _ _ _ other => by cases other)
  | stop graceful =>
      obtain rfl := Option.some.inj label
      exact .nothing (fun _ _ _ other => by cases other)
  | post handler =>
      obtain rfl := Option.some.inj label
      exact .nothing (fun _ _ _ other => by cases other)
  | timer waiter cancelled ec =>
      obtain rfl := Option.some.inj label
      exact .nothing (fun _ _ _ other => by cases other)
  | complete =>
      obtain ⟨⟨operation, ec, cancelTimer⟩, completing, resumes⟩ :=
        Option.map_eq_some_iff.mp label
      simp only [uses, completing]
      cases operation with
      | exchange op => exact .ends completing resumes.symm
      | connect caller =>
          subst resumes
          exact .nothing (fun _ _ _ other => by cases other)
      | close graceful caller =>
          subst resumes
          exact .nothing (fun _ _ _ other => by cases other)
      | wait stop cancelled =>
          subst resumes
          exact .nothing (fun _ _ _ other => by cases other)

theorem State.Logs.exchanged {s : State Byte Response} {event : Session.Event}
    {uses : List Use} (logs : s.Logs event uses) {use : Use}
    (member : use ∈ uses) :
    ∃ attempt ec, attempt ∈ s.attempts ∧
      use = .exchanged attempt.push attempt.connection ec := by
  cases logs with
  | nothing => cases member
  | @ends op ec _ _ completing resumes =>
      obtain ⟨attempt, last, rfl⟩ := List.mem_map.mp member
      have found := Option.mem_toList.mp last
      have push : attempt.push = op.task := by
        simpa using List.find?_some found
      exact ⟨attempt, ec, List.mem_of_find?_eq_some found, by rw [push]⟩

theorem State.Logs.unopened {s : State Byte Response} {event : Session.Event}
    {log uses : List Use} (logs : s.Logs event uses) {connection : Nat}
    {caller : Connector} (member : .opened connection caller ∈ log ++ uses) :
    .opened connection caller ∈ log := by
  rcases List.mem_append.mp member with old | new
  · exact old
  · obtain ⟨_, _, _, equal⟩ := logs.exchanged new
    cases equal

theorem Launches.attemptsOf {s t : State Byte Response}
    {effects : List Effect} (launches : Launches s t effects) (push : PushId) :
    ∃ more, t.attemptsOf push = more ++ s.attemptsOf push ∧ more.length ≤ 1 ∧
      (more ≠ [] → ∃ next, effects = [.exchange next] ∧ next.task = push) := by
  have same : t.attempts = s.attempts →
      ∃ more, t.attemptsOf push = more ++ s.attemptsOf push ∧
        more.length ≤ 1 ∧ (more ≠ [] →
          ∃ next, effects = [.exchange next] ∧ next.task = push) := by
    intro attempts
    exact ⟨[], by simp [State.attemptsOf, attempts], by simp, by simp⟩
  cases launches with
  | nothing attempts => exact same attempts
  | refuses _ attempts => exact same attempts
  | writes next started attempt task attempts =>
      by_cases own : next.task = push
      · refine ⟨[attempt], ?_, by simp, fun _ => ⟨next, started, own⟩⟩
        simp [State.attemptsOf, attempts, task, own]
      · refine ⟨[], ?_, by simp, by simp⟩
        simp [State.attemptsOf, attempts, task, own]

theorem State.lastAttempt_eq (push : PushId) (s : State Byte Response) :
    s.lastAttempt push = (s.attemptsOf push).head? :=
  List.head?_filter.symm

namespace State.Ledger

/-- No earlier request was completed on the connection of a request in its
first exchange, if the processing of the request had opened it. -/
theorem not_reused {s : State Byte Response} {log : List Use}
    (ledger : s.Ledger log) {push : PushId} {connection : Nat}
    (unexchanged : ∀ used ec, .exchanged push used ec ∉ log)
    {other : QueueOp} (opened : .opened connection (.queue other) ∈ log)
    (own : ∀ attempt ∈ s.attempts, attempt.connection = connection →
      attempt.push = push) : ¬Reused log connection := by
  rintro ⟨use, member, reuses⟩
  cases use with
  | opened made caller =>
      cases caller with
      | queue op => exact reuses
      | start handler =>
          obtain rfl : made = connection := reuses
          cases ledger.opener _ _ _ opened member
  | exchanged completed used ec =>
      obtain ⟨rfl, rfl⟩ : used = connection ∧ ec = none := reuses
      obtain ⟨attempt, written, rfl, here⟩ := ledger.exchanged _ _ _ member
      exact unexchanged _ _ (own attempt written here ▸ member)

/-- An exchange of the request in hand ends: its first one has failed on a
reused connection, or it ends without a failure. -/
theorem ends {s : State Byte Response} {log : List Use} (ledger : s.Ledger log)
    {op : QueueOp} (inHand : s.InHand log op) (exchanged : op.coro = .exchanged)
    {ec : Option ErrorCode} {cancelTimer : Bool}
    (completing : s.completing = some ⟨.exchange op, ec, cancelTimer⟩)
    (reused : Event.FailsReused (s, log) .complete) :
    s.Failed (log ++ (s.lastAttempt op.task).toList.map
      (fun attempt => .exchanged op.task attempt.connection ec)) op.task ∨
    ((s.attemptsOf op.task).length ≤ 1 ∧
      (∀ connection ec', .exchanged op.task connection ec' ∉ log) ∧
      (ec = none ∨ ec = some .operationAborted)) := by
  cases inHand with
  | again later failed =>
      refine .inl (failed.extended ⟨⟨[], rfl⟩, ?_⟩ ledger.numbered)
      intro connection caller member
      obtain ⟨_, _, equal⟩ := List.mem_map.mp member
      cases equal
  | first firstRound point unexchanged own =>
      have atMostOne : (s.attemptsOf op.task).length ≤ 1 := by
        rcases point with ⟨connected, _⟩ | ⟨_, one⟩
        · simp [exchanged] at connected
        · exact one
      cases ec with
      | none => exact .inr ⟨atMostOne, unexchanged, .inl rfl⟩
      | some error =>
          by_cases aborted : error = .operationAborted
          · exact .inr ⟨atMostOne, unexchanged, .inr (congrArg some aborted)⟩
          left
          have written : s.attemptsOf op.task ≠ [] := by
            rcases ledger.completing _ _ _ completing with written | same
            · exact written
            · exact (aborted (Option.some.inj same)).elim
          obtain ⟨attempt, single⟩ : ∃ attempt,
              s.attemptsOf op.task = [attempt] :=
            List.length_eq_one_iff.mp (Nat.le_antisymm atMostOne
              (List.length_pos_iff.mpr written))
          have last : s.lastAttempt op.task = some attempt := by
            rw [lastAttempt_eq, single]
            rfl
          have fails : Reused log attempt.connection := by
            refine reused op.task ?_ attempt last
            simp [completing, Completing.firstFailure, firstRound, aborted]
          rw [last]
          refine ⟨written, ⟨log, [], attempt.connection, error, rfl,
            unexchanged, fails⟩, ?_⟩
          rintro ⟨oldest, other, first, opened, task⟩
          obtain rfl : attempt = oldest := by
            simpa [single] using first
          have earlier : .opened attempt.connection (.queue other) ∈ log := by
            simpa using opened
          exact ledger.not_reused unexchanged earlier
            (own attempt.connection other earlier task) fails

end State.Ledger

namespace State

/-- A step in which a handler of the session runs, and what it logs. -/
structure Turn (endpoint : SessionEndpoint) (request : PushId → Request)
    (s : State Byte Response) (log : List Use) (event : Session.Event)
    (t : State Byte Response) (uses : List Use) where
  handled : Handled endpoint request s event t
  ledger : s.Ledger log
  logs : s.Logs event uses
  reused : Event.FailsReused (s, log) .complete
  before : s.session.Invariant
  points : s.session.AtPoints
  after : t.session.Invariant
  ran : ∀ attempt ∈ s.attempts, attempt.push ∈ s.session.core.ran

namespace Turn

variable {s t : State Byte Response} {log uses : List Use}
  {event : Session.Event} (turn : Turn endpoint request s log event t uses)
include turn

theorem enabled : event.Enabled s.session :=
  (step_eq turn.handled.stepped).1

theorem session : t.session =
    (event.taken s.session).apply (event.outcome s.session.core) :=
  turn.handled.session_eq.trans (step_eq turn.handled.stepped).2

theorem launches : Launches s t (event.outcome s.session.core).2 :=
  turn.handled.launches turn.points

theorem core : t.session.core = (event.outcome s.session.core).1 := by
  rw [turn.session, Session.State.apply_core]

theorem extension (push : PushId) : s.Extends t uses push := by
  obtain ⟨more, attempts, _⟩ := turn.launches.attemptsOf push
  refine ⟨⟨more, attempts⟩, ?_⟩
  intro connection caller member
  obtain ⟨_, _, _, equal⟩ := turn.logs.exchanged member
  cases equal

theorem exchanged {push : PushId} {connection : Nat} {ec : Option ErrorCode}
    (member : .exchanged push connection ec ∈ log ++ uses) :
    ∃ attempt ∈ s.attempts, attempt.push = push ∧
      attempt.connection = connection := by
  rcases List.mem_append.mp member with old | new
  · exact turn.ledger.exchanged push connection ec old
  · obtain ⟨attempt, _, written, equal⟩ := turn.logs.exchanged new
    cases equal
    exact ⟨attempt, written, rfl, rfl⟩

theorem waits {next : QueueOp}
    (one : (event.outcome s.session.core).2 = [.exchange next]) :
    .exchange next ∈ t.session.operations := by
  have begun : State.started endpoint request s.transport (.exchange next) =
      some (.exchange next,
        (processOne (request next.task) s.transport : Step Byte Response)) :=
    rfl
  rw [turn.handled.operations one begun]
  exact List.mem_append_right _ List.mem_cons_self

theorem drives {next : QueueOp}
    (one : (event.outcome s.session.core).2 = [.exchange next]) :
    .queueOp next ∈ t.session.drivers :=
  Session.State.mem_drivers (turn.waits one) rfl

theorem sole {op other : QueueOp} (first : .queueOp op ∈ t.session.drivers)
    (second : .queueOp other ∈ t.session.drivers) : op = other := by
  have atMostOne := turn.after.driven.drivers_length
  match drivers : t.session.drivers, atMostOne with
  | [], _ => simp [drivers] at first
  | [driver], _ =>
      rw [drivers, List.mem_singleton] at first second
      exact Driver.queueOp.inj (first.trans second.symm)

theorem inHand_ends {op : QueueOp} {ec : Option ErrorCode} {isOpen : Bool}
    (resumes : event = .resume (.exchange op) ec isOpen) :
    s.session.drivers = [.queueOp op] ∧ op.coro = .exchanged ∧
      s.InHand log op := by
  have enabled := turn.enabled
  rw [resumes] at enabled
  obtain ⟨drivers, _⟩ := Session.State.drivers_erase_queueOp
    turn.before.driven.drivers_length enabled.1 rfl
  exact ⟨drivers, turn.points.operations _ enabled.1,
    turn.ledger.inHand op (by simp [drivers])⟩

theorem logs_nothing {op : QueueOp} (drives : .queueOp op ∈ s.session.drivers)
    (other : op.coro ≠ .exchanged) : uses = [] := by
  cases turn.logs with
  | nothing => rfl
  | ends completing resumes =>
      obtain ⟨drivers, exchanged, _⟩ := turn.inHand_ends resumes
      rw [drivers, List.mem_singleton, Driver.queueOp.injEq] at drives
      exact (other (drives ▸ exchanged)).elim

theorem attempts_le {op : QueueOp} (unwritten : s.attemptsOf op.task = [])
    (point : op.coro = .connected ∨ op.coro = .exchanged)
    (exchange : ∀ next, (event.outcome s.session.core).2 = [.exchange next] →
      next = op) (points : t.session.AtPoints) :
    op.coro = .connected ∧ t.attemptsOf op.task = [] ∨
      op.coro = .exchanged ∧ (t.attemptsOf op.task).length ≤ 1 := by
  obtain ⟨more, attempts, atMostOne, started⟩ :=
    turn.launches.attemptsOf op.task
  rw [unwritten, List.append_nil] at attempts
  rw [attempts]
  rcases point with connected | exchanged
  · refine .inl ⟨connected, ?_⟩
    by_contra some
    obtain ⟨next, one, _⟩ := started some
    obtain rfl := exchange next one
    have exchanged : next.coro = .exchanged :=
      points.operations (.exchange next) (turn.waits one)
    simp [connected] at exchanged
  · exact .inr ⟨exchanged, atMostOne⟩

theorem written {attempt : Attempt} (member : attempt ∈ t.attempts) :
    attempt ∈ s.attempts ∨
      ∃ next, (event.outcome s.session.core).2 = [.exchange next] ∧
        attempt.push = next.task := by
  cases turn.launches with
  | nothing attempts => exact .inl (attempts ▸ member)
  | refuses _ attempts => exact .inl (attempts ▸ member)
  | writes next one latest task attempts =>
      rw [attempts] at member
      rcases List.mem_cons.mp member with rfl | old
      · exact .inr ⟨next, one, task⟩
      · exact .inl old

theorem inHand_taken (points : t.session.AtPoints) {op : QueueOp}
    (exchange : ∀ next, (event.outcome s.session.core).2 = [.exchange next] →
      next = op) (fresh : op.task ∉ s.session.core.ran)
    (firstRound : op.firstRound = true)
    (point : op.coro = .connected ∨ op.coro = .exchanged) :
    t.InHand (log ++ uses) op := by
  have unwritten : s.attemptsOf op.task = [] := by
    refine List.filter_eq_nil_iff.mpr ?_
    intro attempt member same
    exact fresh (of_decide_eq_true same ▸ turn.ran attempt member)
  refine .first firstRound (turn.attempts_le unwritten point exchange points)
    ?_ ?_
  · intro connection ec member
    obtain ⟨attempt, written, push, _⟩ := turn.exchanged member
    exact fresh (push ▸ turn.ran attempt written)
  · intro connection other member task
    have opened := turn.logs.unopened member
    exact (fresh (task ▸ (turn.ledger.opened _ _ opened).2 other rfl)).elim

theorem inHand_failed {op : QueueOp}
    (drives : .queueOp op ∈ s.session.drivers) (exchanged : op.coro = .exchanged)
    {error : ErrorCode} (notAborted : error ≠ .operationAborted)
    {isOpen : Bool} (resumes : event = .resume (.exchange op) (some error)
      isOpen) : t.Failed (log ++ uses) op.task := by
  cases turn.logs with
  | nothing other => exact (other _ _ _ resumes).elim
  | ends completing same =>
      obtain ⟨rfl, rfl, rfl⟩ : _ ∧ _ ∧ _ := by
        simpa using resumes.symm.trans same
      rcases turn.ledger.ends (turn.ledger.inHand op drives) exchanged
          completing turn.reused with ended | ⟨_, _, harmless⟩
      · have grown : s.Extends t [] op.task :=
          ⟨(turn.extension _).attempts, by simp⟩
        have later := ended.extended grown turn.ledger.numbered
        rwa [List.append_nil] at later
      · simp [notAborted] at harmless

theorem inHand_started (points : t.session.AtPoints) {effect : Effect}
    (started : effect ∈ (event.outcome s.session.core).2) {op : QueueOp}
    (keeps : effect.queueOp? = some op) : t.InHand (log ++ uses) op := by
  have exchange : ∀ next, (event.outcome s.session.core).2 =
      [.exchange next] → next = op := by
    intro next one
    rw [one, List.mem_singleton] at started
    rw [started] at keeps
    exact Option.some.inj keeps
  cases Session.Event.continues turn.before turn.points turn.enabled started
      keeps with
  | takes fresh follows =>
      obtain ⟨firstRound, point⟩ := follows.of_entry rfl
      exact turn.inHand_taken points exchange fresh firstRound point
  | goes before ec inHand follows resumes =>
      cases turn.ledger.inHand before inHand with
      | again later failed =>
          exact (failed.extended (turn.extension _)
            turn.ledger.numbered).goes later follows
      | first firstRound point unexchanged own =>
          have notEntry : before.coro ≠ .entry := by
            rcases point with ⟨connected, _⟩ | ⟨exchanged, _⟩
            · simp [connected]
            · simp [exchanged]
          cases follows with
          | connects entry => exact (notEntry entry).elim
          | retries closed =>
              rcases point with ⟨connected, _⟩ | ⟨exchanged, _⟩
              · simp [closed] at connected
              · simp [closed] at exchanged
          | exchanges coro =>
              have connected := coro.resolve_left notEntry
              have unwritten : s.attemptsOf before.task = [] := by
                rcases point with ⟨_, none⟩ | ⟨exchanged, _⟩
                · exact none
                · simp [connected] at exchanged
              obtain rfl := turn.logs_nothing inHand (by simp [connected])
              rw [List.append_nil]
              refine .first firstRound (turn.attempts_le unwritten (.inr rfl)
                exchange points) unexchanged ?_
              intro connection other opened same attempt member here
              rcases turn.written member with old | ⟨next, one, push⟩
              · exact own connection other opened same attempt old here
              · exact exchange next one ▸ push
          | closes error exchanged failed notAborted =>
              obtain ⟨isOpen, rfl⟩ := resumes exchanged
              subst failed
              have failed : t.Failed (log ++ uses) before.task :=
                turn.inHand_failed inHand exchanged notAborted rfl
              exact .again (.inr rfl) failed

theorem inHand (points : t.session.AtPoints) {op : QueueOp}
    (drives : .queueOp op ∈ t.session.drivers) : t.InHand (log ++ uses) op := by
  have parts := drives
  rw [turn.session] at parts
  rcases Session.State.drivers_apply parts with kept |
    ⟨effect, started, keeps⟩
  · by_cases exchange : ∃ next,
        (event.outcome s.session.core).2 = [.exchange next]
    · obtain ⟨next, one⟩ := exchange
      obtain rfl := turn.sole (turn.drives one) drives
      exact turn.inHand_started points (one ▸ List.mem_cons_self) rfl
    · have attempts : t.attempts = s.attempts := by
        cases turn.launches with
        | nothing attempts => exact attempts
        | refuses _ attempts => exact attempts
        | writes next one => exact (exchange ⟨next, one⟩).elim
      have silent : uses = [] := by
        cases turn.logs with
        | nothing => rfl
        | ends completing resumes =>
            have enabled := turn.enabled
            rw [resumes] at enabled kept
            have undriven := (Session.State.drivers_erase_queueOp
              turn.before.driven.drivers_length enabled.1 rfl).2
            simp [Session.Event.taken, undriven] at kept
      rw [silent]
      exact Ledger.inHand_opened
        (turn.ledger.inHand op (Session.Event.drivers_taken kept))
        turn.ledger.numbered attempts (by simp)
  · exact turn.inHand_started points started keeps

theorem once_ended {op : QueueOp} {ec : Option ErrorCode}
    {cancelTimer isOpen : Bool}
    (completing : s.completing = some ⟨.exchange op, ec, cancelTimer⟩)
    (resumes : event = .resume (.exchange op) ec isOpen)
    (attempts : t.attemptsOf op.task = s.attemptsOf op.task) :
    OnceOnFresh (t, log ++ (s.lastAttempt op.task).toList.map
      (fun attempt => .exchanged op.task attempt.connection ec)) op.task := by
  obtain ⟨_, exchanged, inHand⟩ := turn.inHand_ends resumes
  rcases turn.ledger.ends inHand exchanged completing turn.reused with
    failed | ⟨atMostOne, unexchanged, harmless⟩
  · have kept : s.Extends t [] op.task := ⟨⟨[], attempts⟩, by simp⟩
    have later := failed.extended kept turn.ledger.numbered
    rw [List.append_nil] at later
    exact later.onceOnFresh
  · have once : (t.attemptsOf op.task).length ≤ 1 := by rwa [attempts]
    refine ⟨?_, fun _ => once, ?_⟩
    · intro twice
      have both : 2 ≤ 1 := Nat.le_trans twice once
      exact absurd both (by decide)
    · intro _ connection error member
      rcases List.mem_append.mp member with old | new
      · exact (unexchanged _ _ old).elim
      · obtain ⟨_, _, same⟩ := List.mem_map.mp new
        obtain ⟨_, _, rfl⟩ := Use.exchanged.inj same
        obtain rfl : error = .operationAborted := by simpa using harmless
        rw [turn.core, resumes]
        simp only [Session.Event.outcome, Operation.resume,
          QueueOp.call_aborted, Core.postHandler]
        exact List.mem_append_right _ List.mem_cons_self

theorem once (points : t.session.AtPoints) (push : PushId) :
    OnceOnFresh (t, log ++ uses) push := by
  by_cases hand : ∃ op, .queueOp op ∈ t.session.drivers ∧ op.task = push
  · obtain ⟨op, drives, rfl⟩ := hand
    exact (turn.inHand points drives).once
  have attempts : t.attemptsOf push = s.attemptsOf push := by
    obtain ⟨more, attempts, _, started⟩ := turn.launches.attemptsOf push
    by_cases none : more = []
    · rw [attempts, none, List.nil_append]
    · obtain ⟨next, one, task⟩ := started none
      exact (hand ⟨next, turn.drives one, task⟩).elim
  have posted : s.session.core.posted ⊆ t.session.core.posted := by
    rw [turn.core]
    exact (event.outcome_posted s.session.core).subset
  have other : (∀ connection ec, .exchanged push connection ec ∉ uses) →
      OnceOnFresh (t, log ++ uses) push := by
    intro unexchanged
    exact (turn.ledger.once push).extended turn.ledger.numbered attempts
      (turn.extension push).opened unexchanged posted
  cases turn.logs with
  | nothing => exact other (by simp)
  | @ends op ec cancelTimer isOpen completing resumes =>
      by_cases task : op.task = push
      · subst task
        exact turn.once_ended completing resumes attempts
      · refine other ?_
        intro connection ec' member
        obtain ⟨_, _, same⟩ := List.mem_map.mp member
        exact task (Use.exchanged.inj same).1

theorem step (points : t.session.AtPoints) : t.Ledger (log ++ uses) := by
  obtain ⟨_, recorded, _⟩ := turn.handled.recorded turn.points
  have grown : ∀ push, s.attemptsOf push ≠ [] → t.attemptsOf push ≠ [] := by
    intro push written
    obtain ⟨more, attempts⟩ := (turn.extension push).attempts
    rw [attempts]
    exact List.append_ne_nil_of_right_ne_nil _ written
  refine
    { numbered := recorded.numbered turn.ledger.numbered
      opened := ?_
      opener := ?_
      exchanged := ?_
      waiting := ?_
      completing := ?_
      inHand := fun op => turn.inHand points
      once := turn.once points }
  · intro connection caller member
    obtain ⟨bounded, ran⟩ :=
      turn.ledger.opened connection caller (turn.logs.unopened member)
    refine ⟨Nat.le_trans bounded recorded.connection, ?_⟩
    intro op same
    rw [turn.core]
    exact (Session.Event.notesRan turn.before turn.enabled).1 (ran op same)
  · intro connection caller other first second
    exact turn.ledger.opener connection caller other
      (turn.logs.unopened first) (turn.logs.unopened second)
  · intro push connection ec member
    obtain ⟨attempt, written, facts⟩ := turn.exchanged member
    refine ⟨attempt, ?_, facts⟩
    have inOwn : attempt ∈ s.attemptsOf attempt.push :=
      List.mem_filter.mpr ⟨written, by simp⟩
    obtain ⟨more, attempts⟩ := (turn.extension attempt.push).attempts
    have later : attempt ∈ t.attemptsOf attempt.push := by
      rw [attempts]
      exact List.mem_append_right _ inOwn
    exact List.mem_of_mem_filter later
  · intro waiting member op exchange
    have old : waiting ∈ s.waiting → t.attemptsOf op.task ≠ [] := fun earlier =>
      grown op.task (turn.ledger.waiting waiting earlier op exchange)
    cases turn.launches with
    | nothing _ kept => exact old (kept waiting member op exchange)
    | refuses _ _ kept => exact old (kept ▸ member)
    | writes next one attempt push attempts kept =>
        rcases kept waiting member with earlier | latest
        · exact old earlier
        · obtain rfl : next = op :=
            Operation.exchange.inj (latest.symm.trans exchange)
          simp [attemptsOf, attempts, push]
  · intro op ec cancelTimer ends
    cases turn.launches with
    | nothing _ _ other => exact (other _ _ _ ends).elim
    | writes next one attempt push attempts kept idle =>
        rw [idle] at ends
        cases ends
    | refuses next _ _ ended =>
        rw [ended] at ends
        cases ends
        exact .inr rfl

end Turn

end State

/-- An operation that has completed calls its handler before anything else. -/
theorem complete_of_completing {s t : State Byte Response}
    {completing : Completing} (ends : s.completing = some completing)
    {event : Event Byte}
    (stepped : step codec endpoint request s event = some t) :
    event = .complete := by
  unfold step at stepped
  rw [ends] at stepped
  cases event with
  | complete => rfl
  | push => cases stepped
  | start => cases stepped
  | stop graceful => cases stepped
  | post handler => cases stepped
  | timer waiter cancelled ec => cases stepped
  | answer index answer => cases stepped

/-- In a run in which first exchanges fail on reused connections only, the log
of every state reached is in order. -/
theorem reached_ledger {s : State Byte Response × List Use}
    (reached : (usedMachine codec endpoint request).ReachedBy
      (fun s event => event.FailsReused s) s) : s.1.Ledger s.2 := by
  induction reached with
  | start =>
      refine
        { numbered := by simp [State.Numbered, Machine.logged, machine]
          opened := by simp [Machine.logged]
          opener := by simp [Machine.logged]
          exchanged := by simp [Machine.logged]
          waiting := by simp [Machine.logged, machine, State.waiting]
          completing := by simp [Machine.logged, machine]
          inHand := ?_
          once := ?_ }
      · intro op drives
        simp [Machine.logged, machine, Session.State.drivers,
          Session.State.liveOps] at drives
      · intro push
        refine ⟨?_, ?_, ?_⟩
        · intro twice
          simp [Machine.logged, machine, State.attemptsOf] at twice
        · rintro ⟨_, _, _, opened, _⟩
          simp [Machine.logged] at opened
        · rintro ⟨_, _, _, opened, _⟩
          simp [Machine.logged] at opened
  | @step before after event earlier reused stepped ledger =>
      obtain ⟨underlying, log⟩ := Machine.logged_step stepped
      have unlogged : (machine codec endpoint request).Reached before.1 :=
        Machine.ReachedBy.unlogged earlier.reached
      have session := reached_session unlogged
      have session' := reached_session (unlogged.step trivial underlying)
      rw [log]
      rcases step_cases underlying with ⟨index, answer, rfl, ⟨answered⟩⟩ |
        ⟨event', label, ⟨handled⟩⟩
      · exact ledger.answered (reached_linked unlogged)
          (reached_invariant session) answered
      · have fails : Event.FailsReused (before.1, before.2)
            (.complete : Event Byte) := by
          cases completing : before.1.completing with
          | none => simp [Event.FailsReused, completing]
          | some completing' =>
              obtain rfl := complete_of_completing completing underlying
              exact reused
        have turn : State.Turn endpoint request before.1 before.2 event'
            after.1 (before.1.uses codec endpoint event) :=
          { handled := handled
            ledger := ledger
            logs := before.1.logs label
            reused := fails
            before := reached_invariant session
            points := reached_atPoints session
            after := reached_invariant session'
            ran := reached_attempts unlogged }
        exact turn.step (reached_atPoints session')

/-- A request is sent a second time on account of a reused connection only. -/
theorem reached_onceOnFresh {s : State Byte Response × List Use}
    (reached : (usedMachine codec endpoint request).ReachedBy
      (fun s event => event.FailsReused s) s) (push : PushId) :
    OnceOnFresh s push :=
  (reached_ledger reached).once push

/-- A second request is exchanged on the connection of the first one, which
fails, and once more on a connection that is made anew. -/
def repeatingRun : List (Event Char) :=
  [.push, .push, .post .processTask, .answer 0 (.resolved none none true),
    .answer 0 (.connected none none true), .complete,
    .answer 0 (.ended none false), .answer 0 (.chunk (exampleReply "ok")),
    .complete, .post .advanceTask, .answer 0 (.ended (some .eof) false),
    .complete, .answer 0 (.ended none false), .complete,
    .post (.retry ⟨1, some .eof, .entry, false⟩),
    .answer 0 (.resolved none none true),
    .answer 0 (.connected none none true), .complete]

theorem onceOnFresh_of_repeatingRun :
    ∃ s, (usedMachine textCodec exampleEndpoint
          (fun _ => exampleRequest)).runWhere
        (fun s event => event.FailsReused s) ({}, []) repeatingRun = some s ∧
      s.1.attemptsOf 1 = [⟨1, 2, 0⟩, ⟨1, 1, 1⟩] ∧
      s.2.drop 1 = [.exchanged 0 1 none, .exchanged 1 1 (some .eof),
        .opened 2 (.queue ⟨1, some .eof, .connected, false⟩)] ∧
      OnceOnFresh s 1 := by
  have executed : ((usedMachine textCodec exampleEndpoint
        (fun _ => exampleRequest)).runWhere
        (fun s event => event.FailsReused s) ({}, []) repeatingRun).map
        (fun s => (s.1.attemptsOf 1, s.2.drop 1)) =
      some ([⟨1, 2, 0⟩, ⟨1, 1, 1⟩],
        [.exchanged 0 1 none, .exchanged 1 1 (some .eof),
          .opened 2 (.queue ⟨1, some .eof, .connected, false⟩)]) := by
    decide +kernel
  obtain ⟨s, run, record⟩ := Option.map_eq_some_iff.mp executed
  obtain ⟨attempts, uses⟩ := Prod.mk.inj record
  exact ⟨s, run, attempts, uses, reached_onceOnFresh
    (Machine.reachedBy_of_runWhere repeatingRun run) 1⟩

/-- The exchange of the first request of a session fails on the connection that
was made for it, and the request is written again. -/
def repeatedRun : List (Event Char) :=
  [.push, .post .processTask, .answer 0 (.resolved none none true),
    .answer 0 (.connected none none true), .complete,
    .answer 0 (.ended (some .timedOut) true), .complete,
    .answer 0 (.ended none false), .complete,
    .post (.retry ⟨0, some .timedOut, .entry, false⟩),
    .answer 0 (.resolved none none true),
    .answer 0 (.connected none none true), .complete]

theorem repeatedRun_not_onceOnFresh :
    ¬∀ (endpoint : SessionEndpoint) (request : PushId → Request)
      (s : State Char TextResponse × List Use),
      (usedMachine textCodec endpoint request).Reached s →
      ∀ push, OnceOnFresh s push := by
  intro claim
  have executed : ((usedMachine textCodec exampleEndpoint
        (fun _ => { exampleRequest with method := .other "POST" })).run
        ({}, []) repeatedRun).map (fun s => (s.1.attemptsOf 0, s.2)) =
      some ([⟨0, 2, 0⟩, ⟨0, 1, 0⟩],
        [.opened 1 (.queue ⟨0, none, .connected, true⟩),
          .exchanged 0 1 (some .timedOut),
          .opened 2 (.queue ⟨0, some .timedOut, .connected, false⟩)]) := by
    decide +kernel
  obtain ⟨s, run, record⟩ := Option.map_eq_some_iff.mp executed
  obtain ⟨attempts, uses⟩ := Prod.mk.inj record
  have holds := claim _ _ s (Machine.reached_of_run repeatedRun run) 0
  have own : OwnConnection s 0 := by
    refine ⟨⟨0, 1, 0⟩, ⟨0, none, .connected, true⟩, ?_, ?_, rfl⟩
    · rw [attempts]
      rfl
    · rw [uses]
      exact List.mem_cons_self
  have once := holds.once own
  rw [attempts] at once
  exact absurd once (by decide)

end Connection

end Fetchpp

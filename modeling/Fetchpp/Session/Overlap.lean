import Fetchpp.Session.Drivers

/-!
# Connects and exchanges in flight

`process_queue_op` starts one operation on the transport at a time, and it is
alone in doing so as long as `start_op` is not at work: `start_op` connects
without looking whether the queue is using the transport, and the queue looks
at `is_open()` only.  The two stay apart exactly when a start finds nothing in
flight and a task is taken up while no start is connecting.
-/

namespace Fetchpp.Session

/-- An `async_connect` or an `async_process_one`. -/
def Operation.occupies : Operation → Bool
  | .connect _ => true
  | .exchange _ => true
  | _ => false

def Effect.occupies : Effect → Bool
  | .connect _ => true
  | .exchange _ => true
  | _ => false

def State.inFlight (s : State) : List Operation :=
  s.operations.filter Operation.occupies

def Operation.isStartConnect : Operation → Bool
  | .connect (.start _) => true
  | _ => false

/-- Whether a posted handler starts to process a task. -/
def Posted.takesTask (c : Core) : Posted → Bool
  | .processTask => c.running && c.hasTasks
  | .advanceTask => c.running && 1 < c.pendingTasks
  | .retry _ => c.running

theorem Posted.running_of_takes {handler : Posted} {c : Core}
    (takes : handler.takesTask c = true) : c.running = true := by
  cases handler with
  | processTask => exact (Bool.and_eq_true_iff.mp takes).1
  | advanceTask => exact (Bool.and_eq_true_iff.mp takes).1
  | retry op => exact takes

/-- A start finds nothing in flight, and a task is taken up only when no start
is connecting. -/
def Event.NoOverlap (s : State) : Event → Prop
  | .start => s.inFlight = []
  | .post handler _ => handler.takesTask s.core = true →
      ∀ operation ∈ s.operations, operation.isStartConnect = false
  | _ => True

instance (s : State) : (event : Event) → Decidable (event.NoOverlap s)
  | .start => inferInstanceAs (Decidable (s.inFlight = []))
  | .post handler _ =>
      inferInstanceAs (Decidable (handler.takesTask s.core = true →
        ∀ operation ∈ s.operations, operation.isStartConnect = false))
  | .push | .stop _ | .resume _ _ _ => inferInstanceAs (Decidable True)

def Outcome.started (outcome : Outcome) : Nat :=
  outcome.2.countP Effect.occupies

theorem QueueOp.started_call_le (op : QueueOp) (ec : Option ErrorCode)
    (isOpen : Bool) (c : Core) : Outcome.started (op.call ec isOpen c) ≤ 1 := by
  rcases op.call_cases ec isOpen c with ⟨_, _, ended⟩ | ⟨_, _, continued, _⟩
  · rw [ended]
    simp [Outcome.started, Effect.occupies]
  · rw [continued]
    exact List.countP_le_length

theorem QueueOp.started_call_entry {op : QueueOp} (entry : op.coro = .entry)
    (isOpen : Bool) (c : Core) :
    Outcome.started (op.call none isOpen c) =
      if c.running = true then 1 else 0 := by
  cases running : c.running with
  | false =>
      simp [QueueOp.call, running, QueueOp.complete, Outcome.started,
        Effect.occupies]
  | true =>
      cases isOpen <;>
        simp [QueueOp.call, running, entry, Outcome.started, Effect.occupies]

theorem QueueOp.started_call_closed {op : QueueOp} (closed : op.coro = .closed)
    (ec : Option ErrorCode) (isOpen : Bool) (c : Core) :
    Outcome.started (op.call ec isOpen c) = 0 := by
  unfold QueueOp.call
  split
  · rfl
  · rw [closed]
    dsimp only
    split <;> rfl

theorem Core.started_processTask (isOpen : Bool) (c : Core) :
    Outcome.started (c.processTask isOpen) =
      if c.running = true ∧ c.tasks ≠ [] then 1 else 0 := by
  cases tasks : c.tasks with
  | nil => simp [Core.processTask, tasks, Outcome.started]
  | cons front rest =>
      have entered := @QueueOp.started_call_entry { task := front } rfl isOpen
        { c with ran := c.ran ++ [front] }
      simpa [Core.processTask, tasks, Core.runTask] using entered

theorem Core.started_advanceTask (isOpen : Bool) (c : Core) :
    Outcome.started (c.advanceTask isOpen) =
      if c.running = true ∧ 1 < c.tasks.length then 1 else 0 := by
  have popped : c.popTask.running = c.running ∧
      (c.popTask.tasks ≠ [] ↔ 1 < c.tasks.length) := by
    unfold Core.popTask
    split
    case h_1 empty => simp [empty]
    case h_2 front rest queue => simp [queue, List.length_pos_iff]
  obtain ⟨running, tasks⟩ := popped
  unfold Core.advanceTask
  dsimp only
  rw [running]
  split
  case isTrue isRunning =>
    rw [Core.started_processTask, running]
    simp only [isRunning, true_and, tasks]
  case isFalse stopped =>
    simp [stopped, Core.cancelAllTasks, Outcome.started, Effect.occupies]

theorem Posted.started_run {handler : Posted}
    (retries : ∀ op, handler = .retry op → op.coro = .entry)
    (isOpen : Bool) (c : Core) :
    Outcome.started (handler.run isOpen c) =
      if handler.takesTask c = true then 1 else 0 := by
  cases handler with
  | processTask =>
      have started := c.started_processTask isOpen
      simpa [Posted.run, takesTask, Core.hasTasks, Core.pendingTasks,
        List.length_pos_iff] using started
  | advanceTask =>
      have takes : Posted.advanceTask.takesTask c = true ↔
          c.running = true ∧ 1 < c.tasks.length := by
        simp only [takesTask, Bool.and_eq_true, decide_eq_true_eq]
        exact Iff.rfl
      simp only [Posted.run, c.started_advanceTask isOpen, takes]
  | retry op => exact QueueOp.started_call_entry (retries op rfl) isOpen c

namespace State

@[simp] theorem filter_occupies_cancelWait (operations : List Operation) :
    (operations.map Operation.cancelWait).filter Operation.occupies =
      operations.filter Operation.occupies := by
  induction operations with
  | nil => rfl
  | cons operation rest induction =>
      cases operation <;>
        simp [Operation.cancelWait, Operation.occupies, List.filter_cons,
          induction]

theorem inFlight_length_perform (s : State) (effect : Effect) :
    (s.perform effect).inFlight.length =
      s.inFlight.length + if effect.occupies = true then 1 else 0 := by
  cases effect <;>
    simp [perform, inFlight, Operation.occupies, Effect.occupies,
      List.filter_cons]

theorem inFlight_length_apply (s : State) (outcome : Outcome) :
    (s.apply outcome).inFlight.length =
      s.inFlight.length + outcome.started := by
  obtain ⟨core, effects⟩ := outcome
  have counted : ∀ t : State,
      (effects.foldl perform t).inFlight.length =
        t.inFlight.length + effects.countP Effect.occupies := by
    induction effects with
    | nil => exact fun _ => rfl
    | cons effect rest induction =>
        intro t
        rw [List.foldl_cons, induction, inFlight_length_perform,
          List.countP_cons]
        omega
  exact counted { s with core := core }

theorem inFlight_length_erase {s : State} {operation : Operation}
    (member : operation ∈ s.operations) :
    s.inFlight.length =
      ({ s with operations := s.operations.erase operation }
        : State).inFlight.length +
        if operation.occupies = true then 1 else 0 := by
  have split := (List.perm_cons_erase member).filter Operation.occupies
  have counted := split.length_eq
  simp only [inFlight, counted, List.filter_cons]
  split <;> simp

end State

/-- The point at which an operation finds the `process_queue_op` it resumes. -/
def Operation.AtPoint : Operation → Prop
  | .connect (.queue op) => op.coro = .connected
  | .exchange op => op.coro = .exchanged
  | .close _ (.queue op) => op.coro = .closed
  | _ => True

def Posted.AtPoint : Posted → Prop
  | .retry op => op.coro = .entry
  | _ => True

def Effect.AtPoint : Effect → Prop
  | .post handler => handler.AtPoint
  | .connect caller => (Operation.connect caller).AtPoint
  | .exchange op => (Operation.exchange op).AtPoint
  | .close graceful caller => (Operation.close graceful caller).AtPoint
  | _ => True

structure State.AtPoints (s : State) : Prop where
  posts : ∀ handler ∈ s.posts, handler.AtPoint
  operations : ∀ operation ∈ s.operations, operation.AtPoint

theorem QueueOp.call_atPoint (op : QueueOp) (ec : Option ErrorCode)
    (isOpen : Bool) (c : Core) :
    ∀ effect ∈ (op.call ec isOpen c).2, effect.AtPoint := by
  unfold QueueOp.call
  split
  · simp [QueueOp.complete, Effect.AtPoint, Posted.AtPoint]
  · cases op.coro with
    | entry =>
        dsimp only
        split <;> simp [Effect.AtPoint, Operation.AtPoint]
    | connected =>
        cases ec <;>
          simp [QueueOp.complete, Effect.AtPoint, Operation.AtPoint,
            Posted.AtPoint]
    | exchanged =>
        cases ec <;>
          simp [QueueOp.complete, Effect.AtPoint, Operation.AtPoint,
            Posted.AtPoint]
    | closed =>
        dsimp only
        split <;>
          simp [QueueOp.complete, Effect.AtPoint, Posted.AtPoint]

theorem Core.processTask_atPoint (isOpen : Bool) (c : Core) :
    ∀ effect ∈ (c.processTask isOpen).2, effect.AtPoint := by
  unfold Core.processTask
  split
  · simp
  · exact QueueOp.call_atPoint _ _ _ _

theorem Posted.run_atPoint (handler : Posted) (isOpen : Bool) (c : Core) :
    ∀ effect ∈ (handler.run isOpen c).2, effect.AtPoint := by
  cases handler with
  | processTask => exact c.processTask_atPoint isOpen
  | advanceTask =>
      simp only [Posted.run, Core.advanceTask]
      split
      · exact c.popTask.processTask_atPoint isOpen
      · simp [Core.cancelAllTasks, Effect.AtPoint]
  | retry op => exact op.call_atPoint none isOpen c

theorem pushOp_atPoint (c : Core) :
    ∀ effect ∈ (pushOp c).2, effect.AtPoint := by
  cases running : c.running with
  | false => simp [pushOp_stopped running]
  | true =>
      rw [pushOp_running running]
      dsimp only
      split <;> simp [Effect.AtPoint, Posted.AtPoint]

theorem Operation.resume_atPoint (operation : Operation) (isOpen : Bool)
    (ec : Option ErrorCode) (c : Core) :
    ∀ effect ∈ (operation.resume isOpen ec c).2, effect.AtPoint := by
  cases resumes : operation.queueOp? with
  | some op =>
      rw [operation.resume_queueOp resumes]
      exact op.call_atPoint ec isOpen c
  | none =>
      intro effect member
      have undriving := (operation.resume_other resumes isOpen ec c).2 effect
        member
      cases effect with
      | post handler => exact undriving.elim
      | exchange op => exact undriving.elim
      | connect caller =>
          cases caller with
          | start handler => trivial
          | queue op => exact undriving.elim
      | close graceful caller =>
          cases caller with
          | queue op => exact undriving.elim
          | stop stop => trivial
      | wait stop => trivial
      | cancelTimer => trivial

namespace State.AtPoints

theorem perform {s : State} (points : s.AtPoints) {effect : Effect}
    (point : effect.AtPoint) : (s.perform effect).AtPoints := by
  have cancelled : ∀ operation ∈ s.operations.map Operation.cancelWait,
      operation.AtPoint := by
    intro operation mapped
    obtain ⟨earlier, member, rfl⟩ := List.mem_map.mp mapped
    have atPoint := points.operations earlier member
    cases earlier <;> exact atPoint
  have added : ∀ operations : List Operation,
      (∀ operation ∈ operations, operation.AtPoint) →
      ∀ operation : Operation, operation.AtPoint →
      ∀ other ∈ operations ++ [operation], other.AtPoint := by
    intro operations old operation new other member
    rcases List.mem_append.mp member with earlier | single
    · exact old other earlier
    · exact List.mem_singleton.mp single ▸ new
  cases effect with
  | post handler =>
      refine ⟨?_, points.operations⟩
      intro other member
      rcases List.mem_append.mp member with earlier | single
      · exact points.posts other earlier
      · exact List.mem_singleton.mp single ▸ point
  | connect caller => exact ⟨points.posts, added _ points.operations _ point⟩
  | exchange op => exact ⟨points.posts, added _ points.operations _ point⟩
  | close graceful caller =>
      exact ⟨points.posts, added _ points.operations _ point⟩
  | wait stop =>
      exact ⟨points.posts, added _ cancelled (.wait stop false) trivial⟩
  | cancelTimer => exact ⟨points.posts, cancelled⟩

theorem apply {s : State} (points : s.AtPoints) {outcome : Outcome}
    (point : ∀ effect ∈ outcome.2, effect.AtPoint) :
    (s.apply outcome).AtPoints := by
  obtain ⟨core, effects⟩ := outcome
  have kept : ∀ t : State, t.AtPoints →
      (effects.foldl State.perform t).AtPoints := by
    induction effects with
    | nil => exact fun _ points => points
    | cons effect rest induction =>
        intro t points
        exact induction
          (fun later member => point later (List.mem_cons_of_mem _ member))
          (t.perform effect)
          (points.perform (point effect List.mem_cons_self))
  exact kept { s with core := core } ⟨points.posts, points.operations⟩

theorem step {s t : State} {event : Event} (points : s.AtPoints)
    (stepped : Session.step s event = some t) : t.AtPoints := by
  cases event with
  | push =>
      cases stepped
      exact points.apply (pushOp_atPoint s.core)
  | start =>
      cases stepped
      exact points.apply (by simp [startOp, Effect.AtPoint, Operation.AtPoint])
  | stop graceful =>
      cases stepped
      exact points.apply (by simp [stopOp, Effect.AtPoint, Operation.AtPoint])
  | post handler isOpen =>
      simp only [Session.step] at stepped
      split at stepped
      · cases stepped
        have rest : ({ s with posts := s.posts.erase handler }
            : State).AtPoints :=
          ⟨fun other member =>
            points.posts other (List.mem_of_mem_erase member),
            points.operations⟩
        exact rest.apply (handler.run_atPoint isOpen s.core)
      · cases stepped
  | resume operation ec isOpen =>
      simp only [Session.step] at stepped
      split at stepped
      · cases stepped
        have rest : ({ s with operations := s.operations.erase operation }
            : State).AtPoints :=
          ⟨points.posts, fun other member =>
            points.operations other (List.mem_of_mem_erase member)⟩
        exact rest.apply (operation.resume_atPoint isOpen ec s.core)
      · cases stepped

end State.AtPoints

theorem reached_atPoints {s : State} (reached : machine.Reached s) :
    s.AtPoints :=
  reached.invariant ⟨by simp [machine], by simp [machine]⟩
    (fun _ _ _ _ points _ stepped => points.step stepped)

/-- While a posted handler is waiting the queue has nothing in flight, so that
what is in flight belongs to a start. -/
theorem State.Invariant.inFlight_of_post {s : State} (invariant : s.Invariant)
    {handler : Posted} (member : handler ∈ s.posts)
    (noStart : ∀ operation ∈ s.operations, operation.isStartConnect = false) :
    s.inFlight = [] := by
  have undriven := (drivers_erase_post invariant.driven.drivers_length member).2
  have noOps := (drivers_eq_nil.mp undriven).2
  refine List.filter_eq_nil_iff.mpr ?_
  intro operation inState occupies
  have notQueue : operation.queueOp? = none :=
    List.filterMap_eq_nil_iff.mp noOps operation inState
  have notStart := noStart operation inState
  cases operation with
  | connect caller =>
      cases caller with
      | start handler => simp [Operation.isStartConnect] at notStart
      | queue op => simp [Operation.queueOp?] at notQueue
  | exchange op => simp [Operation.queueOp?] at notQueue
  | close graceful caller => simp [Operation.occupies] at occupies
  | wait stop cancelled => simp [Operation.occupies] at occupies

theorem Operation.started_resume {operation : Operation}
    (point : operation.AtPoint) (isOpen : Bool) (ec : Option ErrorCode)
    (c : Core) :
    Outcome.started (operation.resume isOpen ec c) ≤
      if operation.occupies = true then 1 else 0 := by
  cases operation with
  | connect caller =>
      cases caller with
      | start handler => simp [resume, startConnected, Outcome.started]
      | queue op => exact op.started_call_le ec isOpen c
  | exchange op => exact op.started_call_le ec isOpen c
  | close graceful caller =>
      cases caller with
      | queue op =>
          exact Nat.le_of_eq (QueueOp.started_call_closed point ec isOpen c)
      | stop stop =>
          simp only [resume, stopClosed]
          split <;> simp [callStopHandler, Outcome.started, Effect.occupies]
  | wait stop cancelled =>
      simp only [resume, stopWaited]
      split <;> simp [callStopHandler, Outcome.started]

theorem State.inFlight_step {s t : State} {event : Event}
    (invariant : s.Invariant) (points : s.AtPoints)
    (atMostOne : s.inFlight.length ≤ 1) (noOverlap : event.NoOverlap s)
    (stepped : Session.step s event = some t) : t.inFlight.length ≤ 1 := by
  cases event with
  | push =>
      cases stepped
      have started : Outcome.started (pushOp s.core) = 0 := by
        cases running : s.core.running with
        | false => simp [pushOp_stopped running, Outcome.started]
        | true =>
            rw [pushOp_running running]
            dsimp only [Outcome.started]
            split <;> simp [Effect.occupies]
      rw [inFlight_length_apply, started]
      exact atMostOne
  | start =>
      cases stepped
      have free : s.inFlight = [] := noOverlap
      rw [inFlight_length_apply, free]
      simp [startOp, Outcome.started, Effect.occupies]
  | stop graceful =>
      cases stepped
      rw [inFlight_length_apply]
      simpa [stopOp, Outcome.started, Effect.occupies] using atMostOne
  | post handler isOpen =>
      simp only [Session.step] at stepped
      split at stepped
      case isTrue member =>
        cases stepped
        have entry : ∀ op, handler = .retry op → op.coro = .entry := by
          rintro op rfl
          exact points.posts _ member
        have started := Posted.started_run entry isOpen s.core
        rw [inFlight_length_apply, started]
        split
        case isTrue takes =>
          have free := invariant.inFlight_of_post member (noOverlap takes)
          simp only [inFlight] at free ⊢
          simp [free]
        case isFalse => exact atMostOne
      case isFalse => cases stepped
  | resume operation ec isOpen =>
      simp only [Session.step] at stepped
      split at stepped
      case isTrue enabled =>
        cases stepped
        have point := points.operations operation enabled.1
        have started := Operation.started_resume point isOpen ec s.core
        have counted := inFlight_length_erase enabled.1
        rw [inFlight_length_apply]
        omega
      case isFalse => cases stepped

/-- Any other start, and any other handler that takes up a task, brings a
second operation into flight. -/
theorem State.overlap_of_step {s t : State} {event : Event}
    (points : s.AtPoints) (overlap : ¬event.NoOverlap s)
    (stepped : Session.step s event = some t) : 2 ≤ t.inFlight.length := by
  have one_le : ∀ operation ∈ s.operations, operation.occupies = true →
      1 ≤ s.inFlight.length := by
    intro operation member occupies
    exact List.length_pos_of_mem (List.mem_filter.mpr ⟨member, occupies⟩)
  cases event with
  | push => exact (overlap trivial).elim
  | start =>
      cases stepped
      have busy : 0 < s.inFlight.length := List.length_pos_iff.mpr overlap
      rw [inFlight_length_apply]
      simp only [startOp, Outcome.started, List.countP_singleton,
        Effect.occupies, if_true]
      omega
  | stop graceful => exact (overlap trivial).elim
  | post handler isOpen =>
      simp only [Event.NoOverlap, not_forall, Bool.not_eq_false] at overlap
      obtain ⟨takes, operation, inState, isStart⟩ := overlap
      simp only [Session.step] at stepped
      split at stepped
      case isTrue member =>
        cases stepped
        have entry : ∀ op, handler = .retry op → op.coro = .entry := by
          rintro op rfl
          exact points.posts _ member
        have occupies : operation.occupies = true := by
          cases operation with
          | connect caller => rfl
          | exchange op => rfl
          | close _ _ => simp [Operation.isStartConnect] at isStart
          | wait _ _ => simp [Operation.isStartConnect] at isStart
        have busy := one_le operation inState occupies
        simp only [inFlight] at busy
        rw [inFlight_length_apply, Posted.started_run entry, if_pos takes]
        simp only [inFlight]
        omega
      case isFalse => cases stepped
  | resume operation ec isOpen => exact (overlap trivial).elim

/-- At most one of the `async_connect`s and `async_process_one`s that a
session started is in flight, as long as `start_op` and `process_queue_op` do
not connect under each other. -/
theorem reached_oneInFlight {s : State}
    (reached : machine.ReachedBy (fun before event => event.NoOverlap before)
      s) :
    s.inFlight.length ≤ 1 := by
  induction reached with
  | start => simp [machine, State.inFlight]
  | step earlier noOverlap stepped atMostOne =>
      exact State.inFlight_step (reached_invariant earlier.reached)
        (reached_atPoints earlier.reached) atMostOne noOverlap stepped

/-- A start on a fresh session, a push once the start has connected, and
another start when that exchange has ended. -/
def apartRun : List Event :=
  [.start, .push, .resume (.connect (.start 0)) none true,
    .post .processTask true,
    .resume (.exchange ⟨0, none, .exchanged, true⟩) none true, .start]

theorem oneInFlight_of_apartRun :
    ∃ s, machine.runWhere (fun before event => event.NoOverlap before)
        machine.start apartRun = some s ∧
      s.inFlight = [.connect (.start 1)] ∧ s.inFlight.length ≤ 1 :=
  ⟨_, rfl, rfl,
    reached_oneInFlight (Lib.Machine.reachedBy_of_runWhere apartRun rfl)⟩

/-- A start and a push that does not wait for it: the host name is still being
resolved, so that the socket is not open yet. -/
def overlappingRun : List Event :=
  [.start, .push, .post .processTask false]

theorem overlappingRun_not_oneInFlight :
    ¬∀ s, machine.Reached s → s.inFlight.length ≤ 1 := by
  intro atMostOne
  have two : ∃ s, machine.run machine.start overlappingRun = some s ∧
      s.inFlight = [.connect (.start 0),
        .connect (.queue ⟨0, none, .connected, true⟩)] :=
    ⟨_, rfl, rfl⟩
  obtain ⟨s, run, inFlight⟩ := two
  have bounded := atMostOne s (Lib.Machine.reached_of_run overlappingRun run)
  simp [inFlight] at bounded

end Fetchpp.Session

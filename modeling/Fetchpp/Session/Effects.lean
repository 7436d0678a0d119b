import Fetchpp.Session.Overlap

/-!
# What the handlers start on the transport

One inversion of the session's code: each connect, exchange and close it starts
belongs to one of six situations.
-/

namespace Fetchpp.Session

/-- What the handler behind an event does. -/
def Event.outcome (c : Core) : Event → Outcome
  | .push => pushOp c
  | .start => startOp c
  | .stop graceful => stopOp graceful c
  | .post handler isOpen => handler.run isOpen c
  | .resume operation ec isOpen => operation.resume isOpen ec c

/-- The state in which that handler runs. -/
def Event.taken (s : State) : Event → State
  | .post handler _ => { s with posts := s.posts.erase handler }
  | .resume operation _ _ =>
      { s with operations := s.operations.erase operation }
  | _ => s

def Event.Enabled (s : State) : Event → Prop
  | .post handler _ => handler ∈ s.posts
  | .resume operation ec _ =>
      operation ∈ s.operations ∧ operation.mayReport ec = true
  | _ => True

theorem step_eq {s t : State} {event : Event}
    (stepped : step s event = some t) :
    event.Enabled s ∧
      t = (event.taken s).apply (event.outcome s.core) := by
  cases event with
  | push => exact ⟨trivial, (Option.some.inj stepped).symm⟩
  | start => exact ⟨trivial, (Option.some.inj stepped).symm⟩
  | stop graceful => exact ⟨trivial, (Option.some.inj stepped).symm⟩
  | post handler isOpen =>
      simp only [step] at stepped
      split at stepped
      case isTrue member => exact ⟨member, (Option.some.inj stepped).symm⟩
      case isFalse => cases stepped
  | resume operation ec isOpen =>
      simp only [step] at stepped
      split at stepped
      case isTrue enabled => exact ⟨enabled, (Option.some.inj stepped).symm⟩
      case isFalse => cases stepped

def Effect.isLocal : Effect → Bool
  | .post _ => true
  | .wait _ => true
  | .cancelTimer => true
  | _ => false

/-- The effects of the handler behind an event that runs on `c`. -/
inductive Event.Starts (c : Core) : Event → Effect → Prop where
  | elsewhere {event : Event} {effect : Effect}
      (isLocal : effect.isLocal = true) : Starts c event effect
  | start : Starts c .start (.connect (.start c.starts))
  | stop (graceful : GracefulShutdown) :
      Starts c (.stop graceful) (.close graceful (.stop c.stops))
  /-- a task is taken up while the socket is not open -/
  | connect {handler : Posted} {op : QueueOp}
      (takes : handler.takesTask c = true) :
      Starts c (.post handler false) (.connect (.queue op))
  /-- a task is taken up on an open socket -/
  | reuse {handler : Posted} {op : QueueOp}
      (takes : handler.takesTask c = true) :
      Starts c (.post handler true) (.exchange op)
  | connected {op next : QueueOp} {isOpen : Bool} (running : c.running = true)
      (task : next.task = op.task) :
      Starts c (.resume (.connect (.queue op)) none isOpen) (.exchange next)
  | failed {op next : QueueOp} {error : ErrorCode} {isOpen : Bool}
      (running : c.running = true) (task : next.task = op.task)
      (notAborted : error ≠ .operationAborted) :
      Starts c (.resume (.exchange op) (some error) isOpen)
        (.close .yes (.queue next))

/-- The effects of `process_queue_op::operator()`. -/
inductive QueueOp.Yields (op : QueueOp) (c : Core) :
    Option ErrorCode → Bool → Effect → Prop where
  | elsewhere {ec : Option ErrorCode} {isOpen : Bool} {effect : Effect}
      (isLocal : effect.isLocal = true) : Yields op c ec isOpen effect
  | connect {ec : Option ErrorCode} (entry : op.coro = .entry)
      (running : c.running = true) {next : QueueOp}
      (task : next.task = op.task) :
      Yields op c ec false (.connect (.queue next))
  | reuse {ec : Option ErrorCode} (entry : op.coro = .entry)
      (running : c.running = true) {next : QueueOp}
      (task : next.task = op.task) :
      Yields op c ec true (.exchange next)
  | connected {isOpen : Bool} (connected : op.coro = .connected)
      (running : c.running = true) {next : QueueOp}
      (task : next.task = op.task) :
      Yields op c none isOpen (.exchange next)
  | failed {error : ErrorCode} {isOpen : Bool} (exchanged : op.coro = .exchanged)
      (running : c.running = true) (notAborted : error ≠ .operationAborted)
      {next : QueueOp} (task : next.task = op.task) :
      Yields op c (some error) isOpen (.close .yes (.queue next))

theorem QueueOp.call_yields (op : QueueOp) (ec : Option ErrorCode)
    (isOpen : Bool) (c : Core) :
    ∃ effect, (op.call ec isOpen c).2 = [effect] ∧
      op.Yields c ec isOpen effect := by
  unfold QueueOp.call
  split
  case isTrue => exact ⟨_, rfl, .elsewhere rfl⟩
  case isFalse proceeds =>
    have running : c.running = true := by
      cases flag : c.running <;> simp [flag] at proceeds ⊢
    have notAborted : ec ≠ some .operationAborted := by
      rintro rfl
      simp at proceeds
    cases coro : op.coro with
    | entry =>
        cases isOpen with
        | false =>
            refine ⟨.connect (.queue { op with coro := .connected }), ?_,
              .connect coro running rfl⟩
            simp [running]
        | true =>
            refine ⟨.exchange { op with coro := .exchanged }, ?_,
              .reuse coro running rfl⟩
            simp
    | connected =>
        cases ec with
        | some error => exact ⟨_, rfl, .elsewhere rfl⟩
        | none => exact ⟨_, rfl, .connected coro running rfl⟩
    | exchanged =>
        cases ec with
        | some error =>
            exact ⟨_, rfl, .failed coro running
              (fun same => notAborted (congrArg some same)) rfl⟩
        | none => exact ⟨_, rfl, .elsewhere rfl⟩
    | closed =>
        dsimp only
        split
        · exact ⟨_, rfl, .elsewhere rfl⟩
        · exact ⟨_, rfl, .elsewhere rfl⟩

/-- The points at which an event resumes the `process_queue_op`s are theirs. -/
def Event.AtPoint : Event → Prop
  | .post handler _ => handler.AtPoint
  | .resume operation _ _ => operation.AtPoint
  | _ => True

theorem State.AtPoints.event {s : State} (points : s.AtPoints) {event : Event}
    (enabled : event.Enabled s) : event.AtPoint := by
  cases event with
  | push => trivial
  | start => trivial
  | stop graceful => trivial
  | post handler isOpen => exact points.posts handler enabled
  | resume operation ec isOpen => exact points.operations operation enabled.1

/-- A handler has no effect or one. -/
def Event.Effects (c : Core) (event : Event) (effects : List Effect) : Prop :=
  effects = [] ∨ ∃ effect, effects = [effect] ∧ event.Starts c effect

private theorem starts_of_entry {handler : Posted} {c d : Core} {op : QueueOp}
    {isOpen : Bool} {effect : Effect} (entry : op.coro = .entry)
    (takes : d.running = true → handler.takesTask c = true)
    (yields : op.Yields d none isOpen effect) :
    Event.Starts c (.post handler isOpen) effect := by
  cases yields with
  | elsewhere isLocal => exact .elsewhere isLocal
  | connect _ running _ => exact .connect (takes running)
  | reuse _ running _ => exact .reuse (takes running)
  | connected connected => simp [entry] at connected

private theorem processTask_effects (handler : Posted) (c d : Core)
    (isOpen : Bool)
    (takes : d.running = true → d.tasks ≠ [] → handler.takesTask c = true) :
    Event.Effects c (.post handler isOpen) (d.processTask isOpen).2 := by
  cases tasks : d.tasks with
  | nil => exact .inl (by simp [Core.processTask, tasks])
  | cons front rest =>
      obtain ⟨effect, effects, yields⟩ := QueueOp.call_yields { task := front }
        none isOpen { d with ran := d.ran ++ [front] }
      refine .inr ⟨effect, ?_, starts_of_entry rfl ?_ yields⟩
      · simpa [Core.processTask, tasks, Core.runTask] using effects
      · intro running
        exact takes running (by simp [tasks])

theorem Event.effects_post {handler : Posted} (point : handler.AtPoint)
    (isOpen : Bool) (c : Core) :
    Event.Effects c (.post handler isOpen) (handler.run isOpen c).2 := by
  cases handler with
  | processTask =>
      refine processTask_effects .processTask c c isOpen ?_
      intro running tasks
      simp [Posted.takesTask, running, Core.hasTasks, Core.pendingTasks,
        List.length_pos_iff, tasks]
  | retry op =>
      obtain ⟨effect, effects, yields⟩ := op.call_yields none isOpen c
      exact .inr ⟨effect, effects, starts_of_entry point id yields⟩
  | advanceTask =>
      have popped : c.popTask.running = c.running ∧
          (c.popTask.tasks ≠ [] → 1 < c.tasks.length) := by
        unfold Core.popTask
        split
        case h_1 empty => simp [empty]
        case h_2 front rest queue => simp [queue, List.length_pos_iff]
      obtain ⟨running, tasks⟩ := popped
      simp only [Posted.run, Core.advanceTask]
      split
      · refine processTask_effects .advanceTask c c.popTask isOpen ?_
        intro isRunning some
        have long := tasks some
        rw [running] at isRunning
        simp only [Posted.takesTask, Bool.and_eq_true, decide_eq_true_eq]
        exact ⟨isRunning, long⟩
      · exact .inr ⟨.cancelTimer, rfl, .elsewhere rfl⟩

theorem Event.effects {event : Event} (point : event.AtPoint) (c : Core) :
    event.Effects c (event.outcome c).2 := by
  cases event with
  | push =>
      cases running : c.running with
      | false => exact .inl (by simp [outcome, pushOp_stopped running])
      | true =>
          simp only [outcome, pushOp_running running]
          split
          · exact .inr ⟨_, rfl, .elsewhere rfl⟩
          · exact .inl rfl
  | start => exact .inr ⟨_, rfl, .start⟩
  | stop graceful => exact .inr ⟨_, rfl, .stop graceful⟩
  | post handler isOpen => exact effects_post point isOpen c
  | resume operation ec isOpen =>
      cases operation with
      | connect caller =>
          cases caller with
          | start handler => exact .inl rfl
          | queue op =>
              obtain ⟨effect, effects, yields⟩ := op.call_yields ec isOpen c
              refine .inr ⟨effect, effects, ?_⟩
              have connected : op.coro = .connected := point
              cases yields with
              | elsewhere isLocal => exact .elsewhere isLocal
              | connect entry => simp [connected] at entry
              | reuse entry => simp [connected] at entry
              | connected _ running task => exact .connected running task
              | failed exchanged => simp [connected] at exchanged
      | exchange op =>
          obtain ⟨effect, effects, yields⟩ := op.call_yields ec isOpen c
          refine .inr ⟨effect, effects, ?_⟩
          have exchanged : op.coro = .exchanged := point
          cases yields with
          | elsewhere isLocal => exact .elsewhere isLocal
          | connect entry => simp [exchanged] at entry
          | reuse entry => simp [exchanged] at entry
          | connected connected => simp [exchanged] at connected
          | failed _ running notAborted task =>
              exact .failed running task notAborted
      | close graceful caller =>
          cases caller with
          | queue op =>
              obtain ⟨effect, effects, yields⟩ := op.call_yields ec isOpen c
              refine .inr ⟨effect, effects, ?_⟩
              have closed : op.coro = .closed := point
              cases yields with
              | elsewhere isLocal => exact .elsewhere isLocal
              | connect entry => simp [closed] at entry
              | reuse entry => simp [closed] at entry
              | connected connected => simp [closed] at connected
              | failed exchanged => simp [closed] at exchanged
          | stop stop =>
              simp only [outcome, Operation.resume, stopClosed]
              split
              · exact .inr ⟨_, rfl, .elsewhere rfl⟩
              · exact .inl rfl
      | wait stop cancelled =>
          simp only [outcome, Operation.resume, stopWaited]
          split <;> exact .inl rfl

theorem Core.popTask_length_le (c : Core) :
    c.popTask.tasks.length ≤ c.tasks.length := by
  unfold Core.popTask
  split
  case h_1 => exact Nat.le_refl _
  case h_2 front rest queue => simp [queue]

theorem QueueOp.call_tasks (op : QueueOp) (ec : Option ErrorCode)
    (isOpen : Bool) (c : Core) : (op.call ec isOpen c).1.tasks = c.tasks := by
  rcases op.call_cases ec isOpen c with ⟨result, running, ended⟩ |
    ⟨effect, next, continued, _⟩
  · rw [ended]
    rfl
  · rw [continued]

theorem Core.processTask_tasks (isOpen : Bool) (c : Core) :
    (c.processTask isOpen).1.tasks = c.tasks := by
  unfold Core.processTask
  split
  · rfl
  · exact QueueOp.call_tasks _ _ _ _

theorem Event.outcome_tasks_le {event : Event} (notPush : event ≠ .push)
    (c : Core) : (event.outcome c).1.tasks.length ≤ c.tasks.length := by
  have same : ∀ {tasks : List PushId}, tasks = c.tasks →
      tasks.length ≤ c.tasks.length := fun equal =>
    Nat.le_of_eq (congrArg List.length equal)
  cases event with
  | push => exact (notPush rfl).elim
  | start => exact Nat.le_refl _
  | stop graceful => exact Nat.le_refl _
  | post handler isOpen =>
      cases handler with
      | processTask => exact same (c.processTask_tasks isOpen)
      | retry op => exact same (op.call_tasks none isOpen c)
      | advanceTask =>
          simp only [outcome, Posted.run, Core.advanceTask]
          split
          · rw [Core.processTask_tasks]
            exact c.popTask_length_le
          · simp [Core.cancelAllTasks, Core.cancelLoop_eq _ _ rfl]
  | resume operation ec isOpen =>
      cases resumes : operation.queueOp? with
      | some op =>
          simp only [outcome, operation.resume_queueOp resumes]
          exact same (op.call_tasks ec isOpen c)
      | none => exact same (operation.resume_other resumes isOpen ec c).1.tasks

/-- What a failed exchange does on a session that runs. -/
theorem QueueOp.call_failed {op : QueueOp} (exchanged : op.coro = .exchanged)
    {error : ErrorCode} (notAborted : error ≠ .operationAborted)
    (isOpen : Bool) {c : Core} (running : c.running = true) :
    op.call (some error) isOpen c = (c, [.close .yes
      (.queue { op with lastEc := some error, coro := .closed })]) := by
  simp [call, running, notAborted, exchanged]

/-- Where `process_queue_op` reports success. -/
def QueueOp.Succeeds (op : QueueOp) (ec : Option ErrorCode) : Prop :=
  (op.coro = .exchanged ∧ ec = none) ∨ (op.coro = .closed ∧ op.lastEc = none)

def Core.Succeeded (c : Core) (push : PushId) : Prop :=
  ⟨push, none, .complete⟩ ∈ c.posted

instance (c : Core) (push : PushId) : Decidable (c.Succeeded push) :=
  inferInstanceAs (Decidable (_ ∈ c.posted))

theorem QueueOp.complete_succeeded {op : QueueOp} {ec : Option ErrorCode}
    {c : Core} {push : PushId}
    (succeeded : Core.Succeeded (op.complete ec c).1 push) :
    c.Succeeded push ∨ (ec = none ∧ op.task = push) := by
  rcases List.mem_append.mp succeeded with earlier | new
  · exact .inl earlier
  · obtain ⟨rfl, rfl, _⟩ := Posting.mk.inj (List.mem_singleton.mp new)
    exact .inr ⟨rfl, rfl⟩

theorem QueueOp.call_succeeded {op : QueueOp} {ec : Option ErrorCode}
    {isOpen : Bool} {c : Core} {push : PushId}
    (succeeded : Core.Succeeded (op.call ec isOpen c).1 push) :
    c.Succeeded push ∨
      (op.task = push ∧ c.running = true ∧ op.Succeeds ec) := by
  unfold QueueOp.call at succeeded
  split at succeeded
  case isTrue =>
    rcases complete_succeeded succeeded with earlier | ⟨other, _⟩
    · exact .inl earlier
    · cases other
  case isFalse proceeds =>
    have running : c.running = true := by
      cases flag : c.running <;> simp [flag] at proceeds ⊢
    cases coro : op.coro with
    | entry =>
        simp only [coro] at succeeded
        split at succeeded <;> exact .inl succeeded
    | connected =>
        cases ec with
        | none =>
            simp only [coro] at succeeded
            exact .inl succeeded
        | some error =>
            simp only [coro] at succeeded
            rcases complete_succeeded succeeded with earlier | ⟨other, _⟩
            · exact .inl earlier
            · cases other
    | exchanged =>
        cases ec with
        | some error =>
            simp only [coro] at succeeded
            exact .inl succeeded
        | none =>
            simp only [coro] at succeeded
            rcases complete_succeeded succeeded with earlier | ⟨_, task⟩
            · exact .inl earlier
            · exact .inr ⟨task, running, .inl ⟨coro, rfl⟩⟩
    | closed =>
        simp only [coro] at succeeded
        split at succeeded
        · exact .inl succeeded
        · rcases complete_succeeded succeeded with earlier | ⟨noError, task⟩
          · exact .inl earlier
          · exact .inr ⟨task, running, .inr ⟨coro, noError⟩⟩

private theorem processTask_succeeded {isOpen : Bool} {c : Core}
    {push : PushId} (succeeded : Core.Succeeded (c.processTask isOpen).1 push) :
    c.Succeeded push := by
  unfold Core.processTask at succeeded
  split at succeeded
  case h_1 => exact succeeded
  case h_2 front rest tasks =>
    rcases QueueOp.call_succeeded succeeded with earlier | ⟨_, _, succeeds⟩
    · exact earlier
    · rcases succeeds with ⟨other, _⟩ | ⟨other, _⟩ <;> cases other

private theorem cancelAllTasks_succeeded {c : Core} {push : PushId}
    (succeeded : Core.Succeeded c.cancelAllTasks.1 push) :
    c.Succeeded push := by
  simp only [Core.cancelAllTasks, Core.cancelLoop_eq _ _ rfl,
    Core.Succeeded] at succeeded
  rcases List.mem_append.mp succeeded with earlier | cancelled
  · exact earlier
  · obtain ⟨task, _, other⟩ := List.mem_map.mp cancelled
    cases other

private theorem run_succeeded {handler : Posted} (point : handler.AtPoint)
    {isOpen : Bool} {c : Core} {push : PushId}
    (succeeded : Core.Succeeded (handler.run isOpen c).1 push) :
    c.Succeeded push := by
  have popped : c.popTask.Succeeded push → c.Succeeded push := by
    unfold Core.popTask
    split <;> exact id
  cases handler with
  | processTask => exact processTask_succeeded succeeded
  | retry op =>
      rcases QueueOp.call_succeeded succeeded with earlier | ⟨_, _, succeeds⟩
      · exact earlier
      · have entry : op.coro = .entry := point
        rcases succeeds with ⟨other, _⟩ | ⟨other, _⟩ <;>
          simp [entry] at other
  | advanceTask =>
      simp only [Posted.run, Core.advanceTask] at succeeded
      apply popped
      split at succeeded
      · exact processTask_succeeded succeeded
      · exact cancelAllTasks_succeeded succeeded

theorem Event.outcome_succeeded {event : Event} (point : event.AtPoint)
    {c : Core} {push : PushId}
    (succeeded : Core.Succeeded (event.outcome c).1 push) :
    c.Succeeded push ∨ ∃ operation op ec isOpen,
      event = .resume operation ec isOpen ∧ operation.queueOp? = some op ∧
      op.task = push ∧ c.running = true ∧ op.Succeeds ec := by
  cases event with
  | push =>
      left
      cases running : c.running with
      | false =>
          simp only [outcome, pushOp_stopped running] at succeeded
          rcases List.mem_append.mp succeeded with earlier | new
          · exact earlier
          · cases List.mem_singleton.mp new
      | true =>
          simp only [outcome, pushOp_running running] at succeeded
          exact succeeded
  | start => exact .inl succeeded
  | stop graceful => exact .inl succeeded
  | post handler isOpen => exact .inl (run_succeeded point succeeded)
  | resume operation ec isOpen =>
      cases queueOp : operation.queueOp? with
      | some op =>
          rw [outcome, Operation.resume_queueOp operation queueOp] at succeeded
          rcases QueueOp.call_succeeded succeeded with earlier | reports
          · exact .inl earlier
          · exact .inr ⟨operation, op, ec, isOpen, rfl, queueOp, reports⟩
      | none =>
          left
          cases operation with
          | exchange op => cases queueOp
          | connect caller =>
              cases caller with
              | queue op => cases queueOp
              | start handler => exact succeeded
          | close graceful caller =>
              cases caller with
              | queue op => cases queueOp
              | stop stop =>
                  simp only [outcome, Operation.resume, stopClosed]
                    at succeeded
                  split at succeeded <;> exact succeeded
          | wait stop cancelled =>
              simp only [outcome, Operation.resume, stopWaited] at succeeded
              split at succeeded <;> exact succeeded

end Fetchpp.Session

import Fetchpp.Session.Retrying

/-!
# The requests behind one that failed

A request is cancelled while it waits in the queue, never after it was taken
up; so nothing was done for it.  Without `async_start` and `async_stop` a
failure is the last thing a session reports of its own: the `advance_task`
posted with it cancels what is queued behind the failed request, and every push
since then is refused.
-/

namespace Fetchpp.Session

namespace Posting

def refusal (push : PushId) : Posting :=
  ⟨push, some .operationAborted, .refusal⟩

def cancellation (push : PushId) : Posting :=
  ⟨push, some .operationAborted, .cancel⟩

end Posting

theorem Operation.mem_notes {operation : Operation} {ec : Option ErrorCode}
    {note : Note} (member : note ∈ operation.notes ec) :
    ∃ op, operation.queueOp? = some op ∧ note.1 = op.task := by
  cases operation with
  | wait stop cancelled => simp [notes] at member
  | exchange op =>
      obtain rfl := List.mem_singleton.mp member
      exact ⟨op, rfl, rfl⟩
  | connect caller =>
      cases caller with
      | start handler => simp [notes] at member
      | queue op =>
          obtain rfl := List.mem_singleton.mp member
          exact ⟨op, rfl, rfl⟩
  | close graceful caller =>
      cases caller with
      | stop handler => simp [notes] at member
      | queue op =>
          obtain rfl := List.mem_singleton.mp member
          exact ⟨op, rfl, rfl⟩

theorem Effect.mem_notes {effect : Effect} {note : Note}
    (member : note ∈ effect.notes) :
    ∃ op, effect.queueOp? = some op ∧ note.1 = op.task := by
  cases effect with
  | post handler => simp [notes] at member
  | wait stop => simp [notes] at member
  | cancelTimer => simp [notes] at member
  | exchange op =>
      obtain rfl := List.mem_singleton.mp member
      exact ⟨op, rfl, rfl⟩
  | connect caller =>
      cases caller with
      | start handler => simp [notes] at member
      | queue op =>
          obtain rfl := List.mem_singleton.mp member
          exact ⟨op, rfl, rfl⟩
  | close graceful caller =>
      cases caller with
      | stop handler => simp [notes] at member
      | queue op =>
          obtain rfl := List.mem_singleton.mp member
          exact ⟨op, rfl, rfl⟩

/-- A `process_queue_op` does things for its own request. -/
theorem QueueOp.mem_notes_call {op : QueueOp} {ec : Option ErrorCode}
    {isOpen : Bool} {c : Core} {note : Note}
    (member : note ∈ (op.call ec isOpen c).notes c) : note.1 = op.task := by
  rcases op.call_cases ec isOpen c with ⟨result, running, ended⟩ |
    ⟨effect, next, continued, keeps, same, _⟩
  · rw [ended] at member
    have finished : note = (op.task, .finished result) := by
      simpa [Outcome.notes, Core.postHandler, Posting.notes, Effect.notes]
        using member
    rw [finished]
  · rw [continued] at member
    have fromEffect : note ∈ effect.notes := by
      simpa [Outcome.notes] using member
    obtain ⟨other, keeps', task⟩ := Effect.mem_notes fromEffect
    obtain rfl : next = other := Option.some.inj (keeps.symm.trans keeps')
    exact task.trans same

theorem QueueOp.ran_call (op : QueueOp) (ec : Option ErrorCode)
    (isOpen : Bool) (c : Core) : (op.call ec isOpen c).1.ran = c.ran := by
  rcases op.call_cases ec isOpen c with ⟨result, running, ended⟩ |
    ⟨effect, next, continued, _⟩
  · rw [ended]
    rfl
  · rw [continued]

/-- What is done by a handler is done for requests that were taken up. -/
def Core.NotesRan (c : Core) (outcome : Outcome) : Prop :=
  c.ran ⊆ outcome.1.ran ∧ ∀ note ∈ outcome.notes c, note.1 ∈ outcome.1.ran

namespace Core.NotesRan

theorem call {op : QueueOp} {c : Core} (ran : op.task ∈ c.ran)
    (ec : Option ErrorCode) (isOpen : Bool) :
    c.NotesRan (op.call ec isOpen c) := by
  rw [NotesRan, op.ran_call]
  refine ⟨fun _ member => member, ?_⟩
  intro note member
  rw [QueueOp.mem_notes_call member]
  exact ran

theorem processTask (c : Core) (isOpen : Bool) :
    c.NotesRan (c.processTask isOpen) := by
  unfold Core.processTask
  split
  · exact ⟨fun _ member => member, by simp [Outcome.notes]⟩
  · rename_i front rest _
    have called : Core.NotesRan { c with ran := c.ran ++ [front] }
        (c.runTask front isOpen) :=
      @call { task := front } _ (by simp) none isOpen
    exact ⟨fun _ member => called.1 (List.mem_append_left _ member), called.2⟩

theorem popTask {c : Core} {outcome : Outcome}
    (popped : c.popTask.NotesRan outcome) : c.NotesRan outcome := by
  have same : c.popTask.ran = c.ran ∧ c.popTask.posted = c.posted := by
    unfold Core.popTask
    split <;> exact ⟨rfl, rfl⟩
  simpa only [NotesRan, Outcome.notes, same.1, same.2] using popped

theorem cancelAllTasks (c : Core) : c.NotesRan c.cancelAllTasks := by
  simp only [NotesRan, Core.cancelAllTasks, Core.cancelLoop_eq c.tasks c rfl]
  refine ⟨fun _ member => member, ?_⟩
  simp [Outcome.notes, Effect.notes, Posting.notes]

theorem advanceTask (c : Core) (isOpen : Bool) :
    c.NotesRan (c.advanceTask isOpen) := by
  unfold Core.advanceTask
  apply popTask
  dsimp only
  split
  · exact processTask _ isOpen
  · exact cancelAllTasks _

theorem pushOp (c : Core) : c.NotesRan (Session.pushOp c) := by
  cases running : c.running with
  | false =>
      rw [pushOp_stopped running]
      refine ⟨fun _ member => member, ?_⟩
      simp [Outcome.notes, Core.postHandler, Posting.notes]
  | true =>
      rw [pushOp_running running]
      refine ⟨fun _ member => member, ?_⟩
      by_cases empty : c.tasks = []
      · simp [Outcome.notes, Core.pushTask, Effect.notes, empty]
      · simp [Outcome.notes, Core.pushTask, empty]

theorem other {c : Core} {outcome : Outcome} (kept : c.SameQueue outcome.1)
    (undriving : ∀ effect ∈ outcome.2, effect.Undriving) :
    c.NotesRan outcome := by
  refine ⟨by rw [kept.ran]; exact fun _ member => member, ?_⟩
  intro note member
  simp only [Outcome.notes, kept.posted, List.drop_length, List.flatMap_nil,
    List.nil_append, List.mem_flatMap] at member
  obtain ⟨effect, started, noted⟩ := member
  obtain ⟨op, keeps, _⟩ := Effect.mem_notes noted
  rw [(undriving effect started).queueOp?] at keeps
  cases keeps

end Core.NotesRan

theorem Event.notesRan {s : State} (invariant : s.Invariant) {event : Event}
    (enabled : event.Enabled s) :
    s.core.NotesRan (event.outcome s.core) := by
  cases event with
  | push => exact .pushOp s.core
  | start => exact .other (by constructor <;> rfl) (by
      simp [outcome, startOp, Effect.Undriving])
  | stop graceful => exact .other (by constructor <;> rfl) (by
      simp [outcome, stopOp, Effect.Undriving])
  | post handler isOpen =>
      cases handler with
      | processTask => exact .processTask s.core isOpen
      | advanceTask => exact .advanceTask s.core isOpen
      | retry op =>
          have drives : .queueOp op ∈ s.drivers :=
            List.mem_append_left _ (List.mem_map.mpr ⟨_, enabled, rfl⟩)
          exact .call (invariant.driver_ran drives) none isOpen
  | resume operation ec isOpen =>
      cases resumes : operation.queueOp? with
      | none =>
          obtain ⟨kept, undriving⟩ :=
            operation.resume_other resumes isOpen ec s.core
          exact .other kept undriving
      | some op =>
          simp only [outcome, operation.resume_queueOp resumes]
          exact .call (invariant.driver_ran
            (State.mem_drivers enabled.1 resumes)) ec isOpen

theorem reached_noted {s : State × List Note}
    (reached : (machine.logged (fun s event => event.notes s)).Reached s) :
    ∀ note ∈ s.2, note.1 ∈ s.1.core.ran := by
  induction reached with
  | start => simp [Lib.Machine.logged]
  | @step before after event earlier allowed stepped noted =>
      obtain ⟨underlying, log⟩ := Lib.Machine.logged_step stepped
      have unlogged : machine.Reached before.1 :=
        Lib.Machine.ReachedBy.unlogged earlier
      obtain ⟨enabled, taken⟩ := step_eq underlying
      obtain ⟨ran, now⟩ :=
        Event.notesRan (reached_invariant unlogged) enabled
      intro note member
      rw [taken, State.apply_core]
      rw [log, Event.notes] at member
      rcases List.mem_append.mp member with old | new
      · exact ran (noted note old)
      rcases List.mem_append.mp new with resumption | doing
      · cases event with
        | push => cases resumption
        | start => cases resumption
        | stop graceful => cases resumption
        | post handler isOpen => cases resumption
        | resume operation ec isOpen =>
            obtain ⟨op, resumes, task⟩ := Operation.mem_notes resumption
            rw [task]
            exact ran ((reached_invariant unlogged).driver_ran
              (State.mem_drivers enabled.1 resumes))
      · exact now note doing

theorem reached_untold {s : State × List Note}
    (reached : (machine.logged (fun s event => event.notes s)).Reached s)
    {push : PushId} (untaken : push ∉ s.1.core.ran) : told push s.2 = [] := by
  refine List.eq_nil_iff_forall_not_mem.mpr ?_
  intro deed member
  exact untaken (reached_noted reached _ (mem_told.mp member))

/-- No request that was cancelled had been taken up. -/
def Core.CancelsUntaken (c : Core) : Prop :=
  ∀ push ec, ⟨push, ec, .cancel⟩ ∈ c.posted → push ∉ c.ran

theorem Core.cancelled_served {c : Core} {push : PushId}
    {ec : Option ErrorCode} (posted : ⟨push, ec, .cancel⟩ ∈ c.posted) :
    push ∈ c.served :=
  List.mem_map.mpr ⟨_, List.mem_filter.mpr ⟨posted, by simp⟩, rfl⟩

theorem QueueOp.cancelled_call {op : QueueOp} {ec : Option ErrorCode}
    {isOpen : Bool} {c : Core} {push : PushId} {result : Option ErrorCode}
    (posted : ⟨push, result, .cancel⟩ ∈ (op.call ec isOpen c).1.posted) :
    ⟨push, result, .cancel⟩ ∈ c.posted := by
  rcases op.call_cases ec isOpen c with ⟨ended, running, outcome⟩ |
    ⟨effect, next, outcome, _⟩
  · rw [outcome] at posted
    simpa [Core.postHandler] using posted
  · rwa [outcome] at posted

namespace Core.CancelsUntaken

theorem call {c : Core} (untaken : c.CancelsUntaken) (op : QueueOp)
    (ec : Option ErrorCode) (isOpen : Bool) :
    (op.call ec isOpen c).1.CancelsUntaken := by
  intro push result posted
  rw [op.ran_call]
  exact untaken push result (QueueOp.cancelled_call posted)

theorem processTask {c : Core} (untaken : c.CancelsUntaken)
    (front : ∀ task rest, c.tasks = task :: rest → task ∉ c.served)
    (isOpen : Bool) : (c.processTask isOpen).1.CancelsUntaken := by
  unfold Core.processTask
  split
  · exact untaken
  · rename_i task rest tasks
    have taken : Core.CancelsUntaken { c with ran := c.ran ++ [task] } := by
      intro push ec posted member
      rcases List.mem_append.mp member with earlier | single
      · exact untaken push ec posted earlier
      · obtain rfl := List.mem_singleton.mp single
        exact front push rest tasks (Core.cancelled_served posted)
    exact taken.call { task := task } none isOpen

theorem cancelAllTasks {c : Core} (untaken : c.CancelsUntaken)
    (numbered : c.Numbered) (ran : ∀ push ∈ c.ran, push ∈ c.popped) :
    c.cancelAllTasks.1.CancelsUntaken := by
  intro push ec posted
  simp only [Core.cancelAllTasks, Core.cancelLoop_eq c.tasks c rfl] at posted ⊢
  rcases List.mem_append.mp posted with earlier | now
  · exact untaken push ec earlier
  · obtain ⟨task, queued, same⟩ := List.mem_map.mp now
    obtain rfl : task = push := congrArg Posting.push same
    have nodup := (List.nodup_append.mp numbered.nodup).1
    rw [numbered.order] at nodup
    intro taken
    exact (List.nodup_append.mp nodup).2.2 task (ran task taken) task queued rfl

theorem same {c d : Core} (untaken : c.CancelsUntaken) (ran : d.ran = c.ran)
    (posted : d.posted = c.posted) : d.CancelsUntaken := by
  intro push ec member
  rw [ran]
  exact untaken push ec (posted ▸ member)

end Core.CancelsUntaken

theorem State.Invariant.front_not_served {s : State} (invariant : s.Invariant)
    (served : s.core.served = s.core.popped) {front : PushId}
    {rest : List PushId} (tasks : s.core.tasks = front :: rest) :
    front ∉ s.core.served := by
  rw [served]
  exact invariant.numbered.front_not_popped tasks

theorem Core.CancelsUntaken.outcome {s : State} (invariant : s.Invariant)
    (untaken : s.core.CancelsUntaken) {event : Event}
    (enabled : event.Enabled s) :
    (event.outcome s.core).1.CancelsUntaken := by
  cases event with
  | start => exact untaken.same rfl rfl
  | stop graceful => exact untaken.same rfl rfl
  | push =>
      cases running : s.core.running with
      | true =>
          simp only [Event.outcome, pushOp_running running]
          exact untaken.same rfl rfl
      | false =>
          simp only [Event.outcome, pushOp_stopped running]
          intro push ec posted
          refine untaken push ec ?_
          simpa [Core.postHandler] using posted
  | resume operation ec isOpen =>
      cases resumes : operation.queueOp? with
      | none =>
          have kept := (operation.resume_other resumes isOpen ec s.core).1
          exact untaken.same kept.ran kept.posted
      | some op =>
          simp only [Event.outcome, operation.resume_queueOp resumes]
          exact untaken.call op ec isOpen
  | post handler isOpen =>
      cases handler with
      | retry op => exact untaken.call op none isOpen
      | processTask =>
          refine untaken.processTask ?_ isOpen
          obtain ⟨sole, _⟩ :=
            State.drivers_erase_post invariant.driven.drivers_length enabled
          intro task rest tasks
          cases invariant.driven with
          | idle _ _ served => exact invariant.front_not_served served tasks
          | unrun _ _ _ _ served =>
              exact invariant.front_not_served served tasks
          | live _ _ _ _ served => exact invariant.front_not_served served tasks
          | completed _ _ _ drivers => simp [drivers, Posted.driver] at sole
      | advanceTask =>
          obtain ⟨front, rest, tasks, served, ran⟩ :=
            invariant.advancing enabled
          have numbered := invariant.numbered.popTask tasks
          have popped : s.core.popTask.CancelsUntaken := by
            refine untaken.same ?_ ?_ <;> simp [Core.popTask, tasks]
          simp only [Event.outcome, Posted.run, Core.advanceTask]
          split
          · refine popped.processTask ?_ isOpen
            intro task behind queued
            have servedNow : s.core.popTask.served =
                s.core.popTask.popped := by
              simpa [Core.popTask, tasks, Core.served] using served
            rw [servedNow]
            exact numbered.front_not_popped queued
          · refine popped.cancelAllTasks numbered ?_
            simpa [Core.popTask, tasks] using ran

theorem reached_cancelsUntaken {s : State} (reached : machine.Reached s) :
    s.core.CancelsUntaken := by
  induction reached with
  | start => simp [Core.CancelsUntaken, machine]
  | step earlier allowed stepped untaken =>
      obtain ⟨enabled, rfl⟩ := step_eq stepped
      rw [State.apply_core]
      exact untaken.outcome (reached_invariant earlier) enabled

/-- The queue of a session in which the handler of `failed` was posted with
`error`; `behind` are the requests that were queued behind it. -/
inductive State.GivenUp (s : State) (failed : PushId) (error : ErrorCode)
    (behind : List PushId) : Prop where
  /-- `advance_task` has not run yet -/
  | ending (earlier : List Posting) (since : List PushId)
      (posts : s.posts = [.advanceTask])
      (tasks : s.core.tasks = failed :: behind)
      (posted : s.core.posted =
        earlier ++ ⟨failed, some error, .complete⟩ :: since.map .refusal)
  /-- `advance_task` has cancelled the requests behind, in their order -/
  | ended (earlier : List Posting) (before after : List PushId)
      (posts : s.posts = [])
      (tasks : s.core.tasks = [])
      (accepted : failed :: behind <:+ s.core.accepted)
      (posted : s.core.posted =
        earlier ++ ⟨failed, some error, .complete⟩ :: before.map .refusal ++
          behind.map .cancellation ++ after.map .refusal)

/-- A `process_queue_op` that posts its handler with a failure stops the
session. -/
theorem QueueOp.call_fails {op : QueueOp} {ec : Option ErrorCode}
    {isOpen : Bool} {c : Core} {failed : PushId} {error : ErrorCode}
    (notAborted : error ≠ .operationAborted)
    (posted : ⟨failed, some error, .complete⟩ ∈ (op.call ec isOpen c).1.posted)
    (before : ⟨failed, some error, .complete⟩ ∉ c.posted) :
    op.coro ≠ .entry ∧ failed = op.task ∧ op.call ec isOpen c =
      ({ c with running := false }.postHandler ⟨failed, some error, .complete⟩,
        [.post .advanceTask]) := by
  have added : ∀ d : Core, ∀ result, d.posted = c.posted →
      ⟨failed, some error, .complete⟩ ∈ (op.complete result d).1.posted →
      failed = op.task ∧ some error = result := by
    intro d result same member
    simp only [QueueOp.complete, Core.postHandler, same] at member
    rcases List.mem_append.mp member with earlier | single
    · exact (before earlier).elim
    · simpa using single
  unfold QueueOp.call at posted ⊢
  split at posted
  case isTrue aborted =>
    obtain ⟨_, same⟩ := added c _ rfl posted
    exact (notAborted (Option.some.inj same)).elim
  case isFalse proceeds =>
    rw [if_neg proceeds]
    cases coro : op.coro with
    | entry =>
        simp only [coro] at posted
        split at posted <;> exact (before posted).elim
    | connected =>
        cases ec with
        | none =>
            simp only [coro] at posted
            exact (before posted).elim
        | some result =>
            simp only [coro] at posted
            obtain ⟨task, same⟩ := added (c.setRunning false) _ rfl posted
            refine ⟨by simp, task, ?_⟩
            simp only [QueueOp.complete, Core.setRunning, task, same]
    | exchanged =>
        cases ec with
        | none =>
            simp only [coro] at posted
            obtain ⟨_, same⟩ := added c _ rfl posted
            cases same
        | some result =>
            simp only [coro] at posted
            exact (before posted).elim
    | closed =>
        simp only [coro] at posted ⊢
        split at posted
        case isTrue => exact (before posted).elim
        case isFalse again =>
          rw [if_neg again]
          obtain ⟨task, same⟩ := added (c.setRunning false) _ rfl posted
          refine ⟨by simp, task, ?_⟩
          simp only [QueueOp.complete, Core.setRunning, task, same]

theorem Core.processTask_fails {c : Core} {isOpen : Bool} {failed : PushId}
    {error : ErrorCode} (notAborted : error ≠ .operationAborted)
    (posted : ⟨failed, some error, .complete⟩ ∈
      (c.processTask isOpen).1.posted) :
    ⟨failed, some error, .complete⟩ ∈ c.posted := by
  unfold Core.processTask at posted
  split at posted
  · exact posted
  · by_contra before
    exact (QueueOp.call_fails notAborted posted before).1 rfl

/-- The handler that posts a failure is that of the request in hand, and leaves
nothing but an `advance_task`. -/
theorem Event.fails {s : State} (invariant : s.Invariant) {event : Event}
    (enabled : event.Enabled s) {failed : PushId} {error : ErrorCode}
    (notAborted : error ≠ .operationAborted)
    (posted : ⟨failed, some error, .complete⟩ ∈
      (event.outcome s.core).1.posted)
    (before : ⟨failed, some error, .complete⟩ ∉ s.core.posted) :
    (∃ rest, s.core.tasks = failed :: rest) ∧ (event.taken s).posts = [] ∧
      event.outcome s.core =
        ({ s.core with running := false }.postHandler
          ⟨failed, some error, .complete⟩, [.post .advanceTask]) := by
  have front : ∀ op, s.drivers = [.queueOp op] →
      ∃ rest, s.core.tasks = op.task :: rest := by
    intro op sole
    cases invariant.driven with
    | idle _ drivers => simp [drivers] at sole
    | unrun _ _ _ drivers => simp [drivers] at sole
    | completed _ _ _ drivers => simp [drivers] at sole
    | live other rest tasks drivers =>
        obtain rfl : other = op := by simpa [drivers] using sole
        exact ⟨rest, tasks⟩
  cases event with
  | start => exact (before posted).elim
  | stop graceful => exact (before posted).elim
  | push =>
      refine (before ?_).elim
      cases running : s.core.running with
      | true =>
          simp only [outcome, pushOp_running running] at posted
          exact posted
      | false =>
          simp only [outcome, pushOp_stopped running] at posted
          simpa [Core.postHandler] using posted
  | resume operation ec isOpen =>
      cases resumes : operation.queueOp? with
      | none =>
          have kept := (operation.resume_other resumes isOpen ec s.core).1
          exact (before (kept.posted ▸ posted)).elim
      | some op =>
          obtain ⟨sole, undriven⟩ := State.drivers_erase_queueOp
            invariant.driven.drivers_length enabled.1 resumes
          simp only [outcome, operation.resume_queueOp resumes] at posted ⊢
          obtain ⟨_, rfl, called⟩ :=
            QueueOp.call_fails notAborted posted before
          exact ⟨front op sole, (State.drivers_eq_nil.mp undriven).1, called⟩
  | post handler isOpen =>
      obtain ⟨sole, undriven⟩ := State.drivers_erase_post
        invariant.driven.drivers_length enabled
      cases handler with
      | processTask =>
          exact (before (Core.processTask_fails notAborted posted)).elim
      | retry op =>
          obtain ⟨_, rfl, called⟩ :=
            QueueOp.call_fails notAborted posted before
          exact ⟨front op sole, (State.drivers_eq_nil.mp undriven).1, called⟩
      | advanceTask =>
          refine (before ?_).elim
          have popped : s.core.popTask.posted = s.core.posted :=
            (Core.TracksFailure.popTask s.core).2
          rw [← popped]
          simp only [outcome, Posted.run, Core.advanceTask] at posted
          split at posted
          · exact Core.processTask_fails notAborted posted
          · simpa [Core.cancelAllTasks, Core.cancelLoop_eq _ _ rfl]
              using posted

namespace State.GivenUp

theorem operations_nil {s : State} {failed : PushId} {error : ErrorCode}
    {behind : List PushId} (givenUp : s.GivenUp failed error behind)
    (reached : machine.ReachedBy (fun _ event => event.PushOnly) s) :
    s.operations = [] := by
  cases givenUp with
  | ended _ _ _ _ tasks => exact (quiet_of_no_tasks reached tasks).2
  | ending _ _ posts =>
      have atMostOne :=
        (reached_invariant reached.reached).driven.drivers_length
      refine List.eq_nil_iff_forall_not_mem.mpr ?_
      intro operation member
      obtain ⟨op, resumes⟩ := Option.isSome_iff_exists.mp
        (reached_driven reached operation member)
      obtain ⟨sole, _⟩ := drivers_erase_queueOp atMostOne member resumes
      simp [drivers, posts, Posted.driver] at sole

theorem pushed {s : State} {failed : PushId} {error : ErrorCode}
    {behind : List PushId} (givenUp : s.GivenUp failed error behind)
    (stopped : s.core.running = false) :
    (s.apply (pushOp s.core)).GivenUp failed error behind := by
  rw [pushOp_stopped stopped, apply_nil]
  cases givenUp with
  | ending earlier since posts tasks posted =>
      refine .ending earlier (since ++ [s.core.pushes]) posts tasks ?_
      simp [Core.postHandler, posted, Posting.refusal]
  | ended earlier before after posts tasks accepted posted =>
      refine .ended earlier before (after ++ [s.core.pushes]) posts tasks
        accepted ?_
      simp [Core.postHandler, posted, Posting.refusal]

theorem advanceTask_eq {c : Core} (stopped : c.running = false)
    {failed : PushId} {behind : List PushId}
    (tasks : c.tasks = failed :: behind) (isOpen : Bool) :
    c.advanceTask isOpen =
      ({ c with
          tasks := []
          popped := c.popped ++ [failed] ++ behind
          posted := c.posted ++ behind.map .cancellation },
        [.cancelTimer]) := by
  have popped : c.popTask =
      { c with tasks := behind, popped := c.popped ++ [failed] } := by
    simp [Core.popTask, tasks]
  have stays : c.popTask.running = false := by rw [popped, stopped]
  simp only [Core.advanceTask, stays, Bool.false_eq_true, if_false,
    Core.cancelAllTasks, Core.cancelLoop_eq _ _ rfl]
  rw [popped, stopped]
  rfl

theorem step {s t : State} {event : Event} {failed : PushId}
    {error : ErrorCode} {behind : List PushId}
    (givenUp : s.GivenUp failed error behind)
    (reached : machine.ReachedBy (fun _ event => event.PushOnly) s)
    (stopped : s.core.running = false) (pushOnly : event.PushOnly)
    (stepped : Session.step s event = some t) :
    t.GivenUp failed error behind := by
  have noOperations := givenUp.operations_nil reached
  obtain ⟨enabled, rfl⟩ := step_eq stepped
  cases event with
  | start => exact pushOnly.elim
  | stop graceful => exact pushOnly.elim
  | push => exact givenUp.pushed stopped
  | resume operation ec isOpen =>
      have member := enabled.1
      simp [noOperations] at member
  | post handler isOpen =>
      have member : handler ∈ s.posts := enabled
      cases givenUp with
      | ended _ _ _ posts => simp [posts] at member
      | ending earlier since posts tasks posted =>
          obtain rfl : handler = .advanceTask := by simpa [posts] using member
          simp only [Event.outcome, Posted.run, advanceTask_eq stopped tasks,
            apply_cons_nil]
          refine .ended earlier since [] ?_ rfl ?_ ?_
          · simp [perform, Event.taken, posts]
          · have order :=
              (reached_invariant reached.reached).numbered.order
            simp [perform, order, tasks]
          · simp [perform, posted]

end State.GivenUp

theorem stopped_of_failure {s : State}
    (reached : machine.ReachedBy (fun _ event => event.PushOnly) s)
    {failed : PushId} {error : ErrorCode}
    (notAborted : error ≠ .operationAborted)
    (posted : ⟨failed, some error, .complete⟩ ∈ s.core.posted) :
    s.core.running = false := by
  refine Bool.eq_false_iff.mpr fun running => ?_
  have harmless := (reached_failing reached).flag.mp running _ posted
  simp [isFailure, notAborted] at harmless

/-- A failure is followed by nothing but cancellations and refusals. -/
theorem reached_givenUp {s : State}
    (reached : machine.ReachedBy (fun _ event => event.PushOnly) s)
    {failed : PushId} {error : ErrorCode}
    (notAborted : error ≠ .operationAborted)
    (posted : ⟨failed, some error, .complete⟩ ∈ s.core.posted) :
    ∃ behind, s.GivenUp failed error behind := by
  induction reached with
  | start => simp [machine] at posted
  | @step before after event earlier pushOnly stepped givenUp =>
      by_cases already : ⟨failed, some error, .complete⟩ ∈ before.core.posted
      · obtain ⟨behind, holds⟩ := givenUp already
        exact ⟨behind, holds.step earlier
          (stopped_of_failure earlier notAborted already) pushOnly stepped⟩
      · obtain ⟨enabled, rfl⟩ := step_eq stepped
        rw [State.apply_core] at posted
        obtain ⟨⟨behind, tasks⟩, posts, outcome⟩ :=
          Event.fails (reached_invariant earlier.reached) enabled notAborted
            posted already
        refine ⟨behind, ?_⟩
        rw [outcome, State.apply_cons_nil]
        refine .ending before.core.posted [] ?_ tasks rfl
        simp [State.perform, posts]

theorem State.GivenUp.untaken {s : State} {failed : PushId} {error : ErrorCode}
    {behind : List PushId} (givenUp : s.GivenUp failed error behind)
    (reached : machine.Reached s) {push : PushId} (member : push ∈ behind) :
    push ∉ s.core.ran := by
  have invariant := reached_invariant reached
  cases givenUp with
  | ended earlier before after posts tasks accepted posted =>
      refine reached_cancelsUntaken reached push (some .operationAborted) ?_
      rw [posted]
      refine List.mem_append_left _ (List.mem_append_right _ ?_)
      exact List.mem_map_of_mem member
  | ending earlier since posts tasks posted =>
      obtain ⟨front, rest, queue, _, ran⟩ :=
        invariant.advancing (by simp [posts])
      obtain ⟨rfl, rfl⟩ := List.cons.inj (tasks.symm.trans queue)
      have nodup := (List.nodup_append.mp invariant.numbered.nodup).1
      rw [invariant.numbered.order, tasks] at nodup
      intro taken
      rcases ran push taken with popped | rfl
      · exact (List.nodup_append.mp nodup).2.2 push popped push
          (List.mem_cons_of_mem _ member) rfl
      · exact (List.nodup_cons.mp (List.nodup_append.mp nodup).2.1).1 member

end Fetchpp.Session

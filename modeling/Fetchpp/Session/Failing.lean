import Fetchpp.Session.Stopping
import Fetchpp.Session.Effects

/-!
# Sessions that give up

Without `async_start` and `async_stop` a session stops running in two places
of `process_queue_op`: when its connect fails, and when an exchange has failed
twice.  Both post the handler of the request with that error, and no other
place reports an error but `operation_aborted`; so the running flag can be read
off the handlers that were posted.
-/

namespace Fetchpp.Session

/-- A call of `push_request`, or a step the session takes by itself. -/
def Event.PushOnly : Event → Prop
  | .start => False
  | .stop _ => False
  | _ => True

instance : (event : Event) → Decidable event.PushOnly
  | .start | .stop _ => inferInstanceAs (Decidable False)
  | .push | .post _ _ | .resume _ _ _ => inferInstanceAs (Decidable True)

/-- An error that is no mere consequence of stopping. -/
def isFailure (ec : Option ErrorCode) : Bool :=
  ec != none && ec != some .operationAborted

/-- Every handler posted so far got a response or `operation_aborted`. -/
def Core.Unfailed (c : Core) : Prop :=
  ∀ posting ∈ c.posted, isFailure posting.ec = false

instance (c : Core) : Decidable c.Unfailed :=
  inferInstanceAs (Decidable (∀ posting ∈ c.posted, _))

theorem Core.unfailed_post (c : Core) (posting : Posting) :
    (c.postHandler posting).Unfailed ↔
      c.Unfailed ∧ isFailure posting.ec = false := by
  constructor
  · intro unfailed
    exact ⟨fun other member =>
      unfailed other (List.mem_append_left _ member),
      unfailed posting (List.mem_append_right _ (List.mem_singleton.mpr rfl))⟩
  · rintro ⟨unfailed, added⟩ other member
    rcases List.mem_append.mp member with earlier | single
    · exact unfailed other earlier
    · exact List.mem_singleton.mp single ▸ added

def Operation.effect : Operation → Effect
  | .connect caller => .connect caller
  | .exchange op => .exchange op
  | .close graceful caller => .close graceful caller
  | .wait stop _ => .wait stop

/-- The operation was among these, up to the cancellation of a wait. -/
def Operation.From (operations : List Operation) (operation : Operation) :
    Prop :=
  ∃ earlier ∈ operations, operation = earlier ∨ operation = earlier.cancelWait

theorem Operation.from_cancelled {operations : List Operation}
    {operation : Operation}
    (mapped : operation.From (operations.map Operation.cancelWait)) :
    operation.From operations := by
  obtain ⟨cancelled, member, same⟩ := mapped
  obtain ⟨earlier, inState, rfl⟩ := List.mem_map.mp member
  refine ⟨earlier, inState, .inr ?_⟩
  rcases same with rfl | rfl
  · rfl
  · cases earlier <;> rfl

theorem State.from_perform {s : State} {effect : Effect}
    {operation : Operation}
    (later : operation.From (s.perform effect).operations) :
    operation.From s.operations ∨ effect = operation.effect := by
  have appended : ∀ (operations : List Operation) (started : Operation),
      operation.From (operations ++ [started]) →
      operation.From operations ∨ started.effect = operation.effect := by
    rintro operations started ⟨earlier, member, same⟩
    rcases List.mem_append.mp member with old | new
    · exact .inl ⟨earlier, old, same⟩
    · right
      rw [List.mem_singleton.mp new] at same
      rcases same with rfl | rfl
      · rfl
      · cases started <;> rfl
  cases effect with
  | post handler => exact .inl later
  | connect caller => exact appended _ (.connect caller) later
  | exchange op => exact appended _ (.exchange op) later
  | close graceful caller => exact appended _ (.close graceful caller) later
  | wait stop =>
      rcases appended _ (.wait stop false) later with cancelled | started
      · exact .inl (Operation.from_cancelled cancelled)
      · exact .inr started
  | cancelTimer => exact .inl (Operation.from_cancelled later)

theorem State.from_apply {s : State} {outcome : Outcome}
    {operation : Operation}
    (member : operation ∈ (s.apply outcome).operations) :
    operation.From s.operations ∨ operation.effect ∈ outcome.2 := by
  obtain ⟨core, effects⟩ := outcome
  have traced : ∀ t : State,
      operation.From (effects.foldl State.perform t).operations →
      operation.From t.operations ∨ operation.effect ∈ effects := by
    clear member
    induction effects with
    | nil => exact fun _ inState => .inl inState
    | cons effect rest induction =>
        intro t later
        rcases induction (t.perform effect) later with now | started
        · rcases State.from_perform now with before | equal
          · exact .inl before
          · exact .inr (equal ▸ List.mem_cons_self)
        · exact .inr (List.mem_cons_of_mem _ started)
  exact traced { s with core := core } ⟨operation, member, .inl rfl⟩

theorem Event.mem_operations_taken {s : State} {event : Event}
    {operation : Operation} (member : operation ∈ (event.taken s).operations) :
    operation ∈ s.operations := by
  cases event with
  | resume resumed ec isOpen => exact List.mem_of_mem_erase member
  | push => exact member
  | start => exact member
  | stop graceful => exact member
  | post handler isOpen => exact member

/-- The error a `process_queue_op` saved before its close is a failure. -/
def Operation.SavesFailure : Operation → Prop
  | .close _ (.queue op) => isFailure op.lastEc = true
  | _ => True

/-- The running flag keeps telling whether a failure was reported, and closes
are started with the failure saved. -/
structure Core.TracksFailure (c : Core) (outcome : Outcome) : Prop where
  flag : (c.running = true ↔ c.Unfailed) →
    (outcome.1.running = true ↔ outcome.1.Unfailed)
  closes : ∀ operation : Operation, operation.effect ∈ outcome.2 →
    operation.SavesFailure

namespace Core.TracksFailure

theorem same {c d : Core} {effects : List Effect}
    (running : d.running = c.running) (posted : d.posted = c.posted)
    (closes : ∀ graceful op, .close graceful (.queue op) ∉ effects) :
    c.TracksFailure (d, effects) where
  flag := by
    intro flag
    simp only [Core.Unfailed, running, posted]
    exact flag
  closes := by
    intro operation member
    cases operation with
    | close graceful caller =>
        cases caller with
        | queue op => exact (closes graceful op member).elim
        | stop stop => trivial
    | connect caller => trivial
    | exchange op => trivial
    | wait stop cancelled => trivial

/-- A handler is posted with `ec`, and the session gives up if that is a
failure. -/
theorem complete (op : QueueOp) (ec : Option ErrorCode) {c : Core}
    {running : Bool} (gives : isFailure ec = true → running = false)
    (keeps : isFailure ec = false → running = c.running) :
    c.TracksFailure (op.complete ec (c.setRunning running)) where
  flag := by
    intro flag
    simp only [QueueOp.complete, Core.unfailed_post]
    cases failure : isFailure ec with
    | true => simp [Core.postHandler, Core.setRunning, gives failure]
    | false =>
        simp only [Core.postHandler, Core.setRunning, keeps failure, flag,
          Core.Unfailed, and_true]
  closes := by
    intro operation member
    cases operation <;> simp [QueueOp.complete, Operation.effect] at member

theorem call {op : QueueOp} (ec : Option ErrorCode) (isOpen : Bool) (c : Core)
    (saved : op.coro = .closed → isFailure op.lastEc = true) :
    c.TracksFailure (op.call ec isOpen c) := by
  have aborted : ∀ result, isFailure result = false →
      c.TracksFailure (op.complete result c) := fun result harmless =>
    @complete op result c c.running
      (fun failure => by simp [harmless] at failure) (fun _ => rfl)
  unfold QueueOp.call
  split
  case isTrue => exact aborted _ rfl
  case isFalse proceeds =>
    have notAborted : ec ≠ some .operationAborted := by
      rintro rfl
      simp at proceeds
    have failure : ∀ error, ec = some error → isFailure (some error) = true := by
      rintro error rfl
      simpa [isFailure] using notAborted
    cases coro : op.coro with
    | entry =>
        dsimp only
        split <;> exact same rfl rfl (by simp)
    | connected =>
        cases ec with
        | none => exact same rfl rfl (by simp)
        | some error =>
            exact complete op _ (fun _ => rfl)
              (fun harmless => by simp [failure error rfl] at harmless)
    | exchanged =>
        cases ec with
        | none => exact aborted none rfl
        | some error =>
            refine ⟨id, ?_⟩
            intro operation member
            cases operation with
            | close graceful caller =>
                cases caller with
                | queue later =>
                    simp only [Operation.effect, List.mem_singleton,
                      Effect.close.injEq, Closer.queue.injEq] at member
                    rw [Operation.SavesFailure, member.2]
                    exact failure error rfl
                | stop stop => trivial
            | connect caller => trivial
            | exchange later => trivial
            | wait stop cancelled => trivial
    | closed =>
        dsimp only
        split
        · exact same rfl rfl (by simp)
        · exact complete op _ (fun _ => rfl)
            (fun harmless => by simp [saved coro] at harmless)

theorem processTask (isOpen : Bool) (c : Core) :
    c.TracksFailure (c.processTask isOpen) := by
  unfold Core.processTask
  split
  · exact same rfl rfl (by simp)
  · rename_i front rest _
    have called := @call { task := front } none isOpen
      { c with ran := c.ran ++ [front] } (by simp)
    exact ⟨called.flag, called.closes⟩

theorem popTask (c : Core) :
    c.popTask.running = c.running ∧ c.popTask.posted = c.posted := by
  unfold Core.popTask
  split <;> exact ⟨rfl, rfl⟩

theorem cancelAllTasks (c : Core) : c.TracksFailure c.cancelAllTasks where
  flag := by
    intro flag
    have harmless : ∀ posting ∈ c.tasks.map (fun task =>
        (⟨task, some .operationAborted, .cancel⟩ : Posting)),
        isFailure posting.ec = false := by
      intro posting member
      obtain ⟨task, _, rfl⟩ := List.mem_map.mp member
      rfl
    simp only [Core.cancelAllTasks, Core.cancelLoop_eq c.tasks c rfl,
      Core.Unfailed, List.forall_mem_append]
    exact flag.trans (Iff.symm (and_iff_left harmless))
  closes := by
    intro operation member
    cases operation <;> simp [Core.cancelAllTasks, Operation.effect] at member

theorem run {handler : Posted} (point : handler.AtPoint) (isOpen : Bool)
    (c : Core) : c.TracksFailure (handler.run isOpen c) := by
  cases handler with
  | processTask => exact processTask isOpen c
  | advanceTask =>
      obtain ⟨running, posted⟩ := popTask c
      have carried : ∀ outcome, c.popTask.TracksFailure outcome →
          c.TracksFailure outcome := by
        intro outcome tracks
        refine ⟨fun flag => tracks.flag ?_, tracks.closes⟩
        simp only [Core.Unfailed, running, posted]
        exact flag
      simp only [Posted.run, Core.advanceTask]
      split
      · exact carried _ (processTask isOpen c.popTask)
      · exact carried _ (cancelAllTasks c.popTask)
  | retry op =>
      have entry : op.coro = .entry := point
      exact call none isOpen c (by simp [entry])

theorem pushOp (c : Core) : c.TracksFailure (Session.pushOp c) := by
  cases running : c.running with
  | true =>
      rw [pushOp_running running]
      refine same rfl rfl ?_
      intro graceful op
      split <;> simp
  | false =>
      rw [pushOp_stopped running]
      refine ⟨?_, ?_⟩
      · intro flag
        rw [Core.unfailed_post]
        exact flag.trans (Iff.symm (and_iff_left rfl))
      · intro operation member
        simp at member

theorem resume {operation : Operation} (point : operation.AtPoint)
    (saves : operation.SavesFailure) (ec : Option ErrorCode) (isOpen : Bool)
    (c : Core) : c.TracksFailure (operation.resume isOpen ec c) := by
  cases operation with
  | connect caller =>
      cases caller with
      | start handler => exact same rfl rfl (by simp)
      | queue op =>
          have connected : op.coro = .connected := point
          exact call ec isOpen c (by simp [connected])
  | exchange op =>
      have exchanged : op.coro = .exchanged := point
      exact call ec isOpen c (by simp [exchanged])
  | close graceful caller =>
      cases caller with
      | queue op => exact call ec isOpen c (fun _ => saves)
      | stop stop =>
          simp only [Operation.resume, stopClosed]
          split <;> exact same rfl rfl (by simp)
  | wait stop cancelled =>
      simp only [Operation.resume, stopWaited]
      split <;> exact same rfl rfl (by simp)

end Core.TracksFailure

structure State.Failing (s : State) : Prop where
  flag : s.core.running = true ↔ s.core.Unfailed
  saves : ∀ operation ∈ s.operations, operation.SavesFailure

theorem Event.tracksFailure {s : State} {event : Event}
    (points : s.AtPoints) (failing : s.Failing) (pushOnly : event.PushOnly)
    (enabled : event.Enabled s) :
    s.core.TracksFailure (event.outcome s.core) := by
  cases event with
  | push => exact .pushOp s.core
  | start => exact pushOnly.elim
  | stop graceful => exact pushOnly.elim
  | post handler isOpen => exact .run (points.posts handler enabled) isOpen _
  | resume operation ec isOpen =>
      exact .resume (points.operations operation enabled.1)
        (failing.saves operation enabled.1) ec isOpen _

theorem State.Failing.step {s t : State} {event : Event}
    (failing : s.Failing) (points : s.AtPoints) (pushOnly : event.PushOnly)
    (stepped : Session.step s event = some t) : t.Failing := by
  obtain ⟨enabled, rfl⟩ := step_eq stepped
  have tracks := Event.tracksFailure points failing pushOnly enabled
  constructor
  · rw [State.apply_core]
    exact tracks.flag failing.flag
  · intro operation member
    rcases State.from_apply member with ⟨earlier, inState, same⟩ | started
    · have saves := failing.saves earlier (Event.mem_operations_taken inState)
      rcases same with rfl | rfl
      · exact saves
      · cases earlier <;> exact saves
    · exact tracks.closes operation started

theorem reached_failing {s : State}
    (reached : machine.ReachedBy (fun _ event => event.PushOnly) s) :
    s.Failing := by
  induction reached with
  | start =>
      constructor
      · simp [machine, Core.Unfailed]
      · simp [machine]
  | step earlier pushOnly stepped failing =>
      exact failing.step (reached_atPoints earlier.reached) pushOnly stepped

theorem Event.effect_queueOp {event : Event} (pushOnly : event.PushOnly)
    {c : Core} {operation : Operation}
    (driven : ∀ resumed ec isOpen, event = .resume resumed ec isOpen →
      resumed.queueOp?.isSome = true)
    (started : operation.effect ∈ (event.outcome c).2) :
    operation.queueOp?.isSome = true := by
  have called : ∀ (op : QueueOp) ec isOpen (d : Core),
      operation.effect ∈ (op.call ec isOpen d).2 →
      operation.queueOp?.isSome = true := by
    intro op ec isOpen d member
    rcases op.call_cases ec isOpen d with ⟨result, running, ended⟩ |
      ⟨effect, next, continued, keeps, _⟩
    · rw [ended] at member
      cases operation <;> simp [Operation.effect] at member
    · rw [continued] at member
      cases List.mem_singleton.mp member
      cases operation with
      | connect caller =>
          cases caller <;> simp_all [Operation.effect, Effect.queueOp?,
            Operation.queueOp?]
      | exchange later => rfl
      | close graceful caller =>
          cases caller <;> simp_all [Operation.effect, Effect.queueOp?,
            Operation.queueOp?]
      | wait stop cancelled => simp [Operation.effect, Effect.queueOp?] at keeps
  have processed : ∀ isOpen (d : Core),
      operation.effect ∈ (d.processTask isOpen).2 →
      operation.queueOp?.isSome = true := by
    intro isOpen d member
    unfold Core.processTask at member
    split at member
    · simp at member
    · exact called _ _ _ _ member
  cases event with
  | start => exact pushOnly.elim
  | stop graceful => exact pushOnly.elim
  | push =>
      cases running : c.running with
      | false => simp [outcome, pushOp_stopped running] at started
      | true =>
          simp only [outcome, pushOp_running running] at started
          split at started
          · cases operation <;> simp [Operation.effect] at started
          · simp at started
  | post handler isOpen =>
      cases handler with
      | processTask => exact processed isOpen c started
      | retry op => exact called op none isOpen c started
      | advanceTask =>
          simp only [outcome, Posted.run, Core.advanceTask] at started
          split at started
          · exact processed isOpen _ started
          · cases operation <;>
              simp [Core.cancelAllTasks, Operation.effect] at started
  | resume resumed ec isOpen =>
      obtain ⟨op, resumes⟩ := Option.isSome_iff_exists.mp
        (driven resumed ec isOpen rfl)
      simp only [outcome, resumed.resume_queueOp resumes] at started
      exact called op ec isOpen c started

theorem reached_driven {s : State}
    (reached : machine.ReachedBy (fun _ event => event.PushOnly) s) :
    ∀ operation ∈ s.operations, operation.queueOp?.isSome = true := by
  induction reached with
  | start => simp [machine]
  | @step before after event _ pushOnly stepped driven =>
      obtain ⟨enabled, rfl⟩ := step_eq stepped
      intro operation member
      rcases State.from_apply member with ⟨earlier, inState, same⟩ | started
      · have was := driven earlier (Event.mem_operations_taken inState)
        rcases same with rfl | rfl
        · exact was
        · rw [Operation.queueOp?_cancelWait]
          exact was
      · refine Event.effect_queueOp pushOnly ?_ started
        rintro resumed ec isOpen rfl
        exact driven resumed enabled.1

theorem quiet_of_no_tasks {s : State}
    (reached : machine.ReachedBy (fun _ event => event.PushOnly) s)
    (empty : s.core.tasks = []) : s.posts = [] ∧ s.operations = [] := by
  have undriven : s.drivers = [] := by
    cases (reached_invariant reached.reached).driven with
    | idle _ drivers => exact drivers
    | unrun front rest tasks => simp [empty] at tasks
    | live op rest tasks => simp [empty] at tasks
    | completed front rest tasks => simp [empty] at tasks
  obtain ⟨posts, liveOps⟩ := State.drivers_eq_nil.mp undriven
  refine ⟨posts, List.eq_nil_iff_forall_not_mem.mpr ?_⟩
  intro operation member
  obtain ⟨op, resumes⟩ := Option.isSome_iff_exists.mp
    (reached_driven reached operation member)
  have live : op ∈ s.liveOps := List.mem_filterMap.mpr ⟨_, member, resumes⟩
  simp [liveOps] at live

end Fetchpp.Session

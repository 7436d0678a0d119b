import Fetchpp.Session.Interleaving

/-!
# One driver for the task queue

A task is woken up in three places: `push_op` posts `process_task` when it
pushed the only task, `complete` posts `advance_task`, and `advance_task` runs
the next task itself.  The invariant says that these add up to exactly one
driver as long as the queue is not empty, and to none when it is empty,
whatever `async_start` and `async_stop` do to the running flag in between.
-/

namespace Fetchpp.Session

inductive Driver where
  | processTask
  | queueOp (op : QueueOp)
  | advanceTask
  deriving DecidableEq, Repr

def Posted.driver : Posted → Driver
  | .processTask => .processTask
  | .advanceTask => .advanceTask
  | .retry op => .queueOp op

/-- The `process_queue_op` an operation will resume. -/
def Operation.queueOp? : Operation → Option QueueOp
  | .connect (.queue op) => some op
  | .exchange op => some op
  | .close _ (.queue op) => some op
  | _ => none

/-- The `process_queue_op` an effect keeps alive. -/
def Effect.queueOp? : Effect → Option QueueOp
  | .post (.retry op) => some op
  | .connect (.queue op) => some op
  | .exchange op => some op
  | .close _ (.queue op) => some op
  | _ => none

def State.liveOps (s : State) : List QueueOp :=
  s.operations.filterMap Operation.queueOp?

def State.drivers (s : State) : List Driver :=
  s.posts.map Posted.driver ++ s.liveOps.map Driver.queueOp

def Core.served (c : Core) : List PushId :=
  (c.posted.filter (fun posting => posting.poster ≠ .refusal)).map Posting.push

def Core.refusals (c : Core) : List Posting :=
  c.posted.filter (fun posting => posting.poster = .refusal)

/-- `complete` has posted the handler of this push. -/
def Core.Completed (c : Core) (push : PushId) : Prop :=
  ∃ ec, ⟨push, ec, .complete⟩ ∈ c.posted

@[simp] theorem Operation.queueOp?_cancelWait (operation : Operation) :
    operation.cancelWait.queueOp? = operation.queueOp? := by
  cases operation <;> rfl

@[simp] theorem State.perform_core (s : State) (effect : Effect) :
    (s.perform effect).core = s.core := by
  cases effect <;> rfl

@[simp] theorem State.apply_core (s : State) (outcome : Outcome) :
    (s.apply outcome).core = outcome.1 := by
  obtain ⟨core, effects⟩ := outcome
  have kept : ∀ t : State, (effects.foldl State.perform t).core = t.core := by
    induction effects with
    | nil => exact fun _ => rfl
    | cons effect effects induction =>
        intro t
        exact (induction (t.perform effect)).trans (t.perform_core effect)
  exact kept _

theorem filterMap_queueOp?_cancelWait (operations : List Operation) :
    (operations.map Operation.cancelWait).filterMap Operation.queueOp? =
      operations.filterMap Operation.queueOp? := by
  rw [List.filterMap_map]
  congr 1
  funext operation
  exact Operation.queueOp?_cancelWait operation

/-- Either the operation ends, its handler is posted and so is `advance_task`,
or it goes on in one effect and nothing else changes. -/
theorem QueueOp.call_cases (op : QueueOp) (ec : Option ErrorCode)
    (isOpen : Bool) (c : Core) :
    (∃ result running, op.call ec isOpen c =
      ({ c with running := running }.postHandler ⟨op.task, result, .complete⟩,
        [.post .advanceTask])) ∨
    (∃ effect next, op.call ec isOpen c = (c, [effect]) ∧
      effect.queueOp? = some next ∧ next.task = op.task ∧
      c.running = true) := by
  unfold QueueOp.call
  split
  · exact .inl ⟨_, c.running, rfl⟩
  · rename_i proceeds
    have running : c.running = true := by
      cases flag : c.running <;> simp [flag] at proceeds ⊢
    cases op.coro with
    | entry =>
        right
        dsimp only
        split
        · exact ⟨_, _, rfl, rfl, rfl, running⟩
        · exact ⟨_, _, rfl, rfl, rfl, running⟩
    | connected =>
        cases ec with
        | some error => exact .inl ⟨_, false, rfl⟩
        | none => exact .inr ⟨_, _, rfl, rfl, rfl, running⟩
    | exchanged =>
        cases ec with
        | some error => exact .inr ⟨_, _, rfl, rfl, rfl, running⟩
        | none => exact .inl ⟨_, c.running, rfl⟩
    | closed =>
        dsimp only
        split
        · exact .inr ⟨_, _, rfl, rfl, rfl, running⟩
        · exact .inl ⟨_, false, rfl⟩

theorem pushOp_stopped {c : Core} (stopped : c.running = false) :
    pushOp c =
      ({ c with
          pushes := c.pushes + 1
          refused := c.refused ++ [c.pushes] }.postHandler
            ⟨c.pushes, some .operationAborted, .refusal⟩, []) := by
  simp [pushOp, stopped]

theorem pushOp_running {c : Core} (running : c.running = true) :
    pushOp c =
      ({ c with pushes := c.pushes + 1 }.pushTask c.pushes,
        if c.tasks = [] then [.post .processTask] else []) := by
  cases tasks : c.tasks <;>
    simp [pushOp, running, tasks, Core.pushTask, Core.pendingTasks]

theorem Core.cancelLoop_eq (tasks : List PushId) (c : Core)
    (queued : c.tasks = tasks) :
    Core.cancelLoop tasks c =
      { c with
        tasks := []
        popped := c.popped ++ tasks
        posted := c.posted ++
          tasks.map (fun task => ⟨task, some .operationAborted, .cancel⟩) } := by
  induction tasks generalizing c with
  | nil =>
      cases c
      simp_all [Core.cancelLoop]
  | cons front rest induction =>
      have popped : ((c.cancelTask front).popTask).tasks = rest := by
        simp [Core.popTask, Core.cancelTask, Core.postHandler, queued]
      rw [Core.cancelLoop, induction _ popped]
      simp [Core.popTask, Core.cancelTask, Core.postHandler, queued]

/-- What the invariant says about the queue depends on these members only. -/
structure Core.SameQueue (c d : Core) : Prop where
  tasks : d.tasks = c.tasks
  popped : d.popped = c.popped
  accepted : d.accepted = c.accepted
  refused : d.refused = c.refused
  pushes : d.pushes = c.pushes
  posted : d.posted = c.posted
  ran : d.ran = c.ran
  emptyPops : d.emptyPops = c.emptyPops

theorem State.drivers_eq_nil {s : State} :
    s.drivers = [] ↔ s.posts = [] ∧ s.liveOps = [] := by
  simp [State.drivers]

theorem State.drivers_perform_queueOp {s : State} {effect : Effect}
    {op : QueueOp} (undriven : s.drivers = [])
    (keeps : effect.queueOp? = some op) :
    (s.perform effect).drivers = [.queueOp op] := by
  obtain ⟨noPosts, noOps⟩ := State.drivers_eq_nil.mp undriven
  simp only [State.liveOps] at noOps
  cases effect with
  | post handler =>
      cases handler <;> simp_all [Effect.queueOp?, State.perform,
        State.drivers, State.liveOps, Posted.driver]
  | connect caller =>
      cases caller <;> simp_all [Effect.queueOp?, State.perform,
        State.drivers, State.liveOps, Operation.queueOp?]
  | exchange other =>
      simp_all [Effect.queueOp?, State.perform, State.drivers,
        State.liveOps, Operation.queueOp?]
  | close graceful caller =>
      cases caller <;> simp_all [Effect.queueOp?, State.perform,
        State.drivers, State.liveOps, Operation.queueOp?]
  | wait stop => simp [Effect.queueOp?] at keeps
  | cancelTimer => simp [Effect.queueOp?] at keeps

theorem State.drivers_perform_post {s : State} (undriven : s.drivers = [])
    (handler : Posted) :
    (s.perform (.post handler)).drivers = [handler.driver] := by
  obtain ⟨noPosts, noOps⟩ := State.drivers_eq_nil.mp undriven
  simp only [State.liveOps] at noOps
  simp [State.perform, State.drivers, State.liveOps, noPosts, noOps]

/-- Effects without a driver: those of `start_op` and `stop_op`, and the
cancellation of the timer. -/
def Effect.Undriving : Effect → Prop
  | .connect (.start _) | .close _ (.stop _) | .wait _ | .cancelTimer => True
  | _ => False

theorem Effect.Undriving.queueOp? {effect : Effect}
    (undriving : effect.Undriving) : effect.queueOp? = none := by
  cases effect with
  | post handler => exact undriving.elim
  | exchange op => exact undriving.elim
  | wait stop => rfl
  | cancelTimer => rfl
  | connect caller =>
      cases caller with
      | start handler => rfl
      | queue op => exact undriving.elim
  | close graceful caller =>
      cases caller with
      | stop handler => rfl
      | queue op => exact undriving.elim

theorem State.drivers_perform_undriving {s : State} {effect : Effect}
    (undriving : effect.Undriving) :
    (s.perform effect).drivers = s.drivers := by
  cases effect with
  | post handler => exact undriving.elim
  | connect caller =>
      cases caller with
      | start handler =>
          simp [State.perform, State.drivers, State.liveOps,
            Operation.queueOp?]
      | queue op => exact undriving.elim
  | exchange op => exact undriving.elim
  | close graceful caller =>
      cases caller with
      | queue op => exact undriving.elim
      | stop handler =>
          simp [State.perform, State.drivers, State.liveOps,
            Operation.queueOp?]
  | wait stop =>
      simp only [State.perform, State.drivers, State.liveOps,
        List.filterMap_append, filterMap_queueOp?_cancelWait]
      simp [Operation.queueOp?]
  | cancelTimer =>
      simp only [State.perform, State.drivers, State.liveOps,
        filterMap_queueOp?_cancelWait]

theorem State.drivers_apply_undriving {s : State} {outcome : Outcome}
    (undriving : ∀ effect ∈ outcome.2, effect.Undriving) :
    (s.apply outcome).drivers = s.drivers := by
  obtain ⟨core, effects⟩ := outcome
  have kept : ∀ t : State,
      (effects.foldl State.perform t).drivers = t.drivers := by
    induction effects with
    | nil => exact fun _ => rfl
    | cons effect effects induction =>
        intro t
        exact (induction (fun later member => undriving later
          (List.mem_cons_of_mem _ member)) (t.perform effect)).trans
          (drivers_perform_undriving (undriving effect List.mem_cons_self))
  exact kept { s with core := core }

theorem Operation.resume_queueOp (operation : Operation) {op : QueueOp}
    (resumes : operation.queueOp? = some op) (isOpen : Bool)
    (ec : Option ErrorCode) (c : Core) :
    operation.resume isOpen ec c = op.call ec isOpen c := by
  cases operation with
  | connect caller =>
      cases caller <;> simp_all [Operation.queueOp?, Operation.resume]
  | exchange other => simp_all [Operation.queueOp?, Operation.resume]
  | close graceful caller =>
      cases caller <;> simp_all [Operation.queueOp?, Operation.resume]
  | wait stop cancelled => simp [Operation.queueOp?] at resumes

theorem Operation.resume_other (operation : Operation)
    (other : operation.queueOp? = none) (isOpen : Bool)
    (ec : Option ErrorCode) (c : Core) :
    c.SameQueue (operation.resume isOpen ec c).1 ∧
      ∀ effect ∈ (operation.resume isOpen ec c).2, effect.Undriving := by
  have same : c.SameQueue c := by constructor <;> rfl
  have handler : ∀ stop result,
      c.SameQueue (callStopHandler stop result c).1 := by
    intro stop result
    constructor <;> rfl
  cases operation with
  | connect caller =>
      cases caller with
      | start starter =>
          exact ⟨by constructor <;> rfl, by simp [resume, startConnected]⟩
      | queue op => simp [queueOp?] at other
  | exchange op => simp [queueOp?] at other
  | close graceful caller =>
      cases caller with
      | queue op => simp [queueOp?] at other
      | stop stop =>
          simp only [resume, stopClosed]
          split
          · exact ⟨same, by simp [Effect.Undriving]⟩
          · exact ⟨handler stop ec, by simp [callStopHandler]⟩
  | wait stop cancelled =>
      simp only [resume, stopWaited]
      split <;> exact ⟨handler stop _, by simp [callStopHandler]⟩

/-- Every push that ran is either accepted or refused, once; the queue is what
was accepted and not popped. -/
structure Core.Numbered (c : Core) : Prop where
  order : c.accepted = c.popped ++ c.tasks
  known : ∀ push, push ∈ c.accepted ++ c.refused ↔ push < c.pushes
  nodup : (c.accepted ++ c.refused).Nodup
  refusals : c.refusals =
    c.refused.map (fun push => ⟨push, some .operationAborted, .refusal⟩)
  ranOnce : c.ran.Nodup
  emptyPops : c.emptyPops = 0

/-- The queue together with what drives it. -/
inductive State.Driven (s : State) : Prop where
  | idle
      (tasks : s.core.tasks = [])
      (drivers : s.drivers = [])
      (served : s.core.served = s.core.popped)
      (ran : ∀ push ∈ s.core.ran, push ∈ s.core.popped)
  | unrun (front : PushId) (rest : List PushId)
      (tasks : s.core.tasks = front :: rest)
      (drivers : s.drivers = [.processTask])
      (served : s.core.served = s.core.popped)
      (ran : ∀ push ∈ s.core.ran, push ∈ s.core.popped)
  | live (op : QueueOp) (rest : List PushId)
      (tasks : s.core.tasks = op.task :: rest)
      (drivers : s.drivers = [.queueOp op])
      (served : s.core.served = s.core.popped)
      (ran : ∀ push ∈ s.core.ran, push ∈ s.core.popped ∨ push = op.task)
      (hasRun : op.task ∈ s.core.ran)
  | completed (front : PushId) (rest : List PushId)
      (tasks : s.core.tasks = front :: rest)
      (drivers : s.drivers = [.advanceTask])
      (served : s.core.served = s.core.popped ++ [front])
      (ran : ∀ push ∈ s.core.ran, push ∈ s.core.popped ∨ push = front)
      (posted : s.core.Completed front)

structure State.Invariant (s : State) : Prop where
  numbered : s.core.Numbered
  driven : s.Driven

namespace Core.Numbered

theorem congr {c d : Core} (numbered : c.Numbered) (kept : c.SameQueue d) :
    d.Numbered where
  order := by rw [kept.accepted, kept.popped, kept.tasks, numbered.order]
  known := by
    rw [kept.accepted, kept.refused, kept.pushes]
    exact numbered.known
  nodup := by
    rw [kept.accepted, kept.refused]
    exact numbered.nodup
  refusals := by
    simp only [Core.refusals, kept.posted, kept.refused]
    exact numbered.refusals
  ranOnce := by
    rw [kept.ran]
    exact numbered.ranOnce
  emptyPops := kept.emptyPops.trans numbered.emptyPops

theorem front_not_popped {c : Core} (numbered : c.Numbered)
    {front : PushId} {rest : List PushId} (tasks : c.tasks = front :: rest) :
    front ∉ c.popped := by
  have nodup := (List.nodup_append.mp numbered.nodup).1
  rw [numbered.order, tasks] at nodup
  intro member
  exact (List.nodup_append.mp nodup).2.2 front member front
    List.mem_cons_self rfl

theorem post {c : Core} (numbered : c.Numbered) (posting : Posting)
    (running : Bool) (notRefusal : posting.poster ≠ .refusal) :
    ({ c with running := running }.postHandler posting).Numbered where
  order := numbered.order
  known := numbered.known
  nodup := numbered.nodup
  refusals := by
    have kept := numbered.refusals
    simp only [Core.refusals, Core.postHandler, List.filter_append] at kept ⊢
    simp [kept, notRefusal]
  ranOnce := numbered.ranOnce
  emptyPops := numbered.emptyPops

theorem call {c : Core} (numbered : c.Numbered) (op : QueueOp)
    (ec : Option ErrorCode) (isOpen : Bool) :
    (op.call ec isOpen c).1.Numbered := by
  rcases op.call_cases ec isOpen c with ⟨result, running, ended⟩ |
    ⟨effect, next, continued, _⟩
  · rw [ended]
    exact numbered.post _ running (by simp)
  · rw [continued]
    exact numbered

theorem runTask {c : Core} (numbered : c.Numbered) {task : PushId}
    (isOpen : Bool) (fresh : task ∉ c.ran) :
    (c.runTask task isOpen).1.Numbered := by
  refine call ?_ _ _ _
  exact
    { order := numbered.order
      known := numbered.known
      nodup := numbered.nodup
      refusals := numbered.refusals
      ranOnce := List.nodup_append.mpr
        ⟨numbered.ranOnce, by simp, by
          intro push member other single
          rw [List.mem_singleton.mp single]
          intro same
          exact fresh (same ▸ member)⟩
      emptyPops := numbered.emptyPops }

theorem popTask {c : Core} (numbered : c.Numbered)
    {front : PushId} {rest : List PushId} (tasks : c.tasks = front :: rest) :
    c.popTask.Numbered := by
  have order := numbered.order
  constructor <;> simp only [Core.popTask, tasks]
  · rw [order, tasks]
    simp
  · exact numbered.known
  · exact numbered.nodup
  · exact numbered.refusals
  · exact numbered.ranOnce
  · exact numbered.emptyPops

theorem processTask {c : Core} (numbered : c.Numbered)
    (ran : ∀ push ∈ c.ran, push ∈ c.popped) (isOpen : Bool) :
    (c.processTask isOpen).1.Numbered := by
  cases tasks : c.tasks with
  | nil => simpa [Core.processTask, tasks] using numbered
  | cons front rest =>
      have fresh : front ∉ c.ran := fun hasRun =>
        numbered.front_not_popped tasks (ran front hasRun)
      simpa [Core.processTask, tasks] using numbered.runTask isOpen fresh

theorem cancelAllTasks {c : Core} (numbered : c.Numbered) :
    c.cancelAllTasks.1.Numbered := by
  simp only [Core.cancelAllTasks, Core.cancelLoop_eq c.tasks c rfl]
  constructor
  · simpa using numbered.order
  · exact numbered.known
  · exact numbered.nodup
  · have kept := numbered.refusals
    simp only [Core.refusals, List.filter_append] at kept ⊢
    simp [kept]
  · exact numbered.ranOnce
  · exact numbered.emptyPops

theorem advanceTask {c : Core} (numbered : c.Numbered)
    {front : PushId} {rest : List PushId} (tasks : c.tasks = front :: rest)
    (ran : ∀ push ∈ c.ran, push ∈ c.popped ∨ push = front) (isOpen : Bool) :
    (c.advanceTask isOpen).1.Numbered := by
  have popNumbered := numbered.popTask tasks
  have popRan : ∀ push ∈ c.popTask.ran, push ∈ c.popTask.popped := by
    simpa [Core.popTask, tasks] using ran
  unfold Core.advanceTask
  dsimp only
  split
  · exact popNumbered.processTask popRan isOpen
  · exact popNumbered.cancelAllTasks

theorem pushOp {c : Core} (numbered : c.Numbered) :
    (Session.pushOp c).1.Numbered := by
  have fresh : c.pushes ∉ c.accepted ++ c.refused := by
    intro member
    exact Nat.lt_irrefl _ ((numbered.known _).mp member)
  have known : ∀ push, push ∈ c.accepted ++ c.refused ∨ push = c.pushes ↔
      push < c.pushes + 1 := by
    intro push
    rw [numbered.known push]
    exact Nat.lt_succ_iff_lt_or_eq.symm
  have nodup := List.nodup_append.mp numbered.nodup
  simp only [List.mem_append, not_or] at fresh known
  cases running : c.running with
  | false =>
      rw [pushOp_stopped running]
      constructor
      · exact numbered.order
      · intro push
        simp only [Core.postHandler]
        rw [← known push]
        simp [or_assoc]
      · simp only [Core.postHandler, ← List.append_assoc]
        refine List.nodup_append.mpr ⟨numbered.nodup, by simp, ?_⟩
        intro push member other single same
        rw [List.mem_singleton.mp single] at same
        rcases List.mem_append.mp (same ▸ member) with left | right
        · exact fresh.1 left
        · exact fresh.2 right
      · have kept := numbered.refusals
        simp only [Core.refusals, Core.postHandler, List.filter_append] at kept ⊢
        simp [kept]
      · exact numbered.ranOnce
      · exact numbered.emptyPops
  | true =>
      rw [pushOp_running running]
      constructor
      · simp [Core.pushTask, numbered.order]
      · intro push
        simp only [Core.pushTask, List.mem_append, List.mem_singleton]
        rw [← known push]
        tauto
      · simp only [Core.pushTask]
        rw [List.append_assoc]
        refine List.nodup_append.mpr ⟨nodup.1, ?_, ?_⟩
        · simpa using ⟨fresh.2, nodup.2.1⟩
        · intro push member other later same
          subst other
          rcases List.mem_append.mp later with single | right
          · exact fresh.1 (List.mem_singleton.mp single ▸ member)
          · exact nodup.2.2 push member push right rfl
      · exact numbered.refusals
      · exact numbered.ranOnce
      · exact numbered.emptyPops

end Core.Numbered

theorem Core.served_post (c : Core) (running : Bool) (posting : Posting)
    (notRefusal : posting.poster ≠ .refusal) :
    ({ c with running := running }.postHandler posting).served =
      c.served ++ [posting.push] := by
  simp [Core.served, Core.postHandler, notRefusal]

theorem Core.served_cancelAllTasks (c : Core) :
    c.cancelAllTasks.1.served = c.served ++ c.tasks := by
  simp [Core.cancelAllTasks, Core.cancelLoop_eq c.tasks c rfl, Core.served,
    List.filter_map, Function.comp_def]

namespace State

/-- A state whose front task is being processed by `op` itself. -/
structure InHand (s : State) (op : QueueOp) (rest : List PushId) : Prop where
  tasks : s.core.tasks = op.task :: rest
  drivers : s.drivers = []
  served : s.core.served = s.core.popped
  ran : ∀ push ∈ s.core.ran, push ∈ s.core.popped ∨ push = op.task
  hasRun : op.task ∈ s.core.ran

/-- A `process_queue_op` that is called leaves one driver behind: itself, or
the `advance_task` it posted. -/
theorem InHand.driven_call {s : State} {op : QueueOp} {rest : List PushId}
    (inHand : s.InHand op rest) (ec : Option ErrorCode) (isOpen : Bool) :
    (s.apply (op.call ec isOpen s.core)).Driven := by
  rcases op.call_cases ec isOpen s.core with ⟨result, running, ended⟩ |
    ⟨effect, next, continued, keeps, same, _⟩
  · rw [ended, apply_cons_nil]
    refine .completed op.task rest inHand.tasks
      (drivers_perform_post inHand.drivers .advanceTask) ?_ inHand.ran ?_
    · exact (Core.served_post s.core running
        ⟨op.task, result, .complete⟩ (by simp)).trans
          (congrArg (· ++ [op.task]) inHand.served)
    · exact ⟨result, by simp [Core.postHandler]⟩
  · rw [continued, apply_cons_nil]
    refine .live next rest ?_ (drivers_perform_queueOp inHand.drivers keeps)
      ?_ ?_ ?_
    · simpa [same] using inHand.tasks
    · simpa using inHand.served
    · simpa [same] using inHand.ran
    · simpa [same] using inHand.hasRun

theorem driven_processTask {s : State} (undriven : s.drivers = [])
    (served : s.core.served = s.core.popped)
    (ran : ∀ push ∈ s.core.ran, push ∈ s.core.popped) (isOpen : Bool) :
    (s.apply (s.core.processTask isOpen)).Driven := by
  cases tasks : s.core.tasks with
  | nil =>
      simp only [Core.processTask, tasks, apply_nil]
      exact .idle tasks undriven served ran
  | cons front rest =>
      simp only [Core.processTask, tasks]
      have inHand :
          ({ s with core := { s.core with ran := s.core.ran ++ [front] } }
            : State).InHand { task := front } rest :=
        { tasks := tasks
          drivers := undriven
          served := served
          ran := by
            intro push member
            rcases List.mem_append.mp member with earlier | single
            · exact .inl (ran push earlier)
            · exact .inr (List.mem_singleton.mp single)
          hasRun := by simp }
      exact inHand.driven_call none isOpen

/-- `advance_task`, run when nothing else drives the queue and its front task
has completed. -/
theorem driven_advanceTask {s : State} {front : PushId} {rest : List PushId}
    (tasks : s.core.tasks = front :: rest) (undriven : s.drivers = [])
    (served : s.core.served = s.core.popped ++ [front])
    (ran : ∀ push ∈ s.core.ran, push ∈ s.core.popped ∨ push = front)
    (isOpen : Bool) :
    (s.apply (s.core.advanceTask isOpen)).Driven := by
  have popServed : s.core.popTask.served = s.core.popTask.popped := by
    simpa [Core.popTask, tasks, Core.served] using served
  have popRan : ∀ push ∈ s.core.popTask.ran, push ∈ s.core.popTask.popped := by
    simpa [Core.popTask, tasks] using ran
  unfold Core.advanceTask
  dsimp only
  split
  · have processed := @driven_processTask { s with core := s.core.popTask }
      undriven popServed popRan isOpen
    exact processed
  · simp only [Core.cancelAllTasks, apply_cons_nil]
    refine .idle ?_ ?_ ?_ ?_
    · simp [Core.cancelLoop_eq _ _ rfl]
    · have undriving : Effect.cancelTimer.Undriving := trivial
      exact (drivers_perform_undriving undriving).trans undriven
    · have all := s.core.popTask.served_cancelAllTasks
      simp only [Core.cancelAllTasks] at all
      rw [perform_core, all, popServed, Core.cancelLoop_eq _ _ rfl]
    · intro push member
      simp only [perform_core, Core.cancelLoop_eq _ _ rfl] at member ⊢
      exact List.mem_append_left _ (popRan push member)

theorem Driven.drivers_length {s : State} (driven : s.Driven) :
    s.drivers.length ≤ 1 := by
  cases driven with
  | idle _ drivers => simp [drivers]
  | unrun _ _ _ drivers => simp [drivers]
  | live _ _ _ drivers => simp [drivers]
  | completed _ _ _ drivers => simp [drivers]

theorem drivers_erase_post {s : State} {handler : Posted}
    (atMostOne : s.drivers.length ≤ 1) (member : handler ∈ s.posts) :
    s.drivers = [handler.driver] ∧
      ({ s with posts := s.posts.erase handler } : State).drivers = [] := by
  have split := List.perm_cons_erase member
  have counted := split.length_eq
  simp only [State.drivers, List.length_append, List.length_map,
    List.length_cons] at atMostOne counted
  have noOps : s.liveOps = [] := List.length_eq_zero_iff.mp (by omega)
  have noPosts : s.posts.erase handler = [] :=
    List.length_eq_zero_iff.mp (by omega)
  rw [noPosts] at split
  refine ⟨?_, drivers_eq_nil.mpr ⟨noPosts, noOps⟩⟩
  simp [State.drivers, List.perm_singleton.mp split, noOps]

theorem drivers_erase_queueOp {s : State} {operation : Operation}
    {op : QueueOp} (atMostOne : s.drivers.length ≤ 1)
    (member : operation ∈ s.operations)
    (resumes : operation.queueOp? = some op) :
    s.drivers = [.queueOp op] ∧
      ({ s with operations := s.operations.erase operation }
        : State).drivers = [] := by
  have split : s.liveOps.Perm
      (op :: (s.operations.erase operation).filterMap Operation.queueOp?) := by
    have mapped := (List.perm_cons_erase member).filterMap Operation.queueOp?
    rwa [List.filterMap_cons_some resumes] at mapped
  have counted := split.length_eq
  simp only [State.drivers, List.length_append, List.length_map,
    List.length_cons] at atMostOne counted
  have noPosts : s.posts = [] := List.length_eq_zero_iff.mp (by omega)
  have noOps : (s.operations.erase operation).filterMap
      Operation.queueOp? = [] := List.length_eq_zero_iff.mp (by omega)
  rw [noOps] at split
  refine ⟨?_, drivers_eq_nil.mpr ⟨noPosts, noOps⟩⟩
  simp [State.drivers, List.perm_singleton.mp split, noPosts]

theorem drivers_erase_other {s : State} {operation : Operation}
    (other : operation.queueOp? = none) :
    ({ s with operations := s.operations.erase operation } : State).drivers =
      s.drivers := by
  have kept : ∀ operations : List Operation,
      (operations.erase operation).filterMap Operation.queueOp? =
        operations.filterMap Operation.queueOp? := by
    intro operations
    induction operations with
    | nil => rfl
    | cons first rest induction =>
        by_cases same : first = operation
        · subst same
          simp [other]
        · simp [same, List.filterMap_cons, induction]
  simp [State.drivers, liveOps, kept]

theorem Driven.congr {s t : State} (driven : s.Driven)
    (drivers : t.drivers = s.drivers)
    (tasks : t.core.tasks = s.core.tasks)
    (popped : t.core.popped = s.core.popped)
    (served : t.core.served = s.core.served)
    (ran : t.core.ran = s.core.ran)
    (posted : ∀ push, s.core.Completed push → t.core.Completed push) :
    t.Driven := by
  cases driven with
  | idle tasks' drivers' served' ran' =>
      exact .idle (tasks.trans tasks') (drivers.trans drivers')
        (by rw [served, popped, served']) (by rw [ran, popped]; exact ran')
  | unrun front rest tasks' drivers' served' ran' =>
      exact .unrun front rest (tasks.trans tasks') (drivers.trans drivers')
        (by rw [served, popped, served']) (by rw [ran, popped]; exact ran')
  | live op rest tasks' drivers' served' ran' hasRun' =>
      exact .live op rest (tasks.trans tasks') (drivers.trans drivers')
        (by rw [served, popped, served']) (by rw [ran, popped]; exact ran')
        (by rw [ran]; exact hasRun')
  | completed front rest tasks' drivers' served' ran' posted' =>
      exact .completed front rest (tasks.trans tasks') (drivers.trans drivers')
        (by rw [served, popped, served']) (by rw [ran, popped]; exact ran')
        (posted front posted')

theorem Invariant.push {s : State} (invariant : s.Invariant) :
    (s.apply (pushOp s.core)).Invariant := by
  refine ⟨by simpa using invariant.numbered.pushOp, ?_⟩
  cases running : s.core.running with
  | false =>
      rw [pushOp_stopped running]
      refine invariant.driven.congr rfl rfl rfl ?_ rfl ?_
      · simp [Core.served, Core.postHandler]
      · rintro front ⟨ec, posted⟩
        exact ⟨ec, List.mem_append_left _ posted⟩
  | true =>
      rw [pushOp_running running]
      cases invariant.driven with
      | idle tasks drivers served ran =>
          simp only [tasks, if_true, apply_cons_nil]
          exact .unrun s.core.pushes [] (by simp [Core.pushTask])
            (drivers_perform_post drivers .processTask) served ran
      | unrun front rest tasks drivers served ran =>
          simp only [tasks, reduceCtorEq, if_false, apply_nil]
          exact .unrun front (rest ++ [s.core.pushes])
            (by simp [Core.pushTask]) drivers served ran
      | live op rest tasks drivers served ran hasRun =>
          simp only [tasks, reduceCtorEq, if_false, apply_nil]
          exact .live op (rest ++ [s.core.pushes])
            (by simp [Core.pushTask]) drivers served ran hasRun
      | completed front rest tasks drivers served ran posted =>
          simp only [tasks, reduceCtorEq, if_false, apply_nil]
          exact .completed front (rest ++ [s.core.pushes])
            (by simp [Core.pushTask]) drivers served ran posted

theorem Invariant.post {s : State} (invariant : s.Invariant)
    {handler : Posted} (member : handler ∈ s.posts) (isOpen : Bool) :
    ({ s with posts := s.posts.erase handler }.apply
      (handler.run isOpen s.core)).Invariant := by
  obtain ⟨sole, undriven⟩ :=
    drivers_erase_post invariant.driven.drivers_length member
  cases invariant.driven with
  | idle tasks drivers served ran => simp [drivers] at sole
  | unrun front rest tasks drivers served ran =>
      have isProcess : handler = .processTask := by
        cases handler <;> simp_all [Posted.driver]
      subst isProcess
      refine ⟨?_, ?_⟩
      · rw [apply_core]
        exact invariant.numbered.processTask ran isOpen
      · exact @driven_processTask
          { s with posts := s.posts.erase .processTask } undriven served ran
          isOpen
  | live op rest tasks drivers served ran hasRun =>
      have isRetry : handler = .retry op := by
        cases handler <;> simp_all [Posted.driver]
      subst isRetry
      refine ⟨?_, ?_⟩
      · rw [apply_core]
        exact invariant.numbered.call op none isOpen
      · exact @InHand.driven_call
          { s with posts := s.posts.erase (.retry op) } op rest
          ⟨tasks, undriven, served, ran, hasRun⟩ none isOpen
  | completed front rest tasks drivers served ran posted =>
      have isAdvance : handler = .advanceTask := by
        cases handler <;> simp_all [Posted.driver]
      subst isAdvance
      refine ⟨?_, ?_⟩
      · rw [apply_core]
        exact invariant.numbered.advanceTask tasks ran isOpen
      · exact @driven_advanceTask
          { s with posts := s.posts.erase .advanceTask } front rest tasks
          undriven served ran isOpen

theorem Invariant.other {s : State} (invariant : s.Invariant)
    {outcome : Outcome} (kept : s.core.SameQueue outcome.1)
    (undriving : ∀ effect ∈ outcome.2, effect.Undriving) :
    (s.apply outcome).Invariant := by
  refine ⟨by rw [apply_core]; exact invariant.numbered.congr kept, ?_⟩
  refine invariant.driven.congr (drivers_apply_undriving undriving)
    ?_ ?_ ?_ ?_ ?_
  · rw [apply_core]
    exact kept.tasks
  · rw [apply_core]
    exact kept.popped
  · rw [apply_core]
    simp only [Core.served, kept.posted]
  · rw [apply_core]
    exact kept.ran
  · intro push completed
    rw [apply_core]
    simpa only [Core.Completed, kept.posted] using completed

theorem Invariant.resume {s : State} (invariant : s.Invariant)
    {operation : Operation} (member : operation ∈ s.operations)
    (ec : Option ErrorCode) (isOpen : Bool) :
    ({ s with operations := s.operations.erase operation }.apply
      (operation.resume isOpen ec s.core)).Invariant := by
  cases resumes : operation.queueOp? with
  | none =>
      obtain ⟨kept, undriving⟩ :=
        operation.resume_other resumes isOpen ec s.core
      have erased : ({ s with operations := s.operations.erase operation }
          : State).Invariant :=
        ⟨invariant.numbered, invariant.driven.congr
          (drivers_erase_other resumes) rfl rfl rfl rfl (fun _ => id)⟩
      exact erased.other kept undriving
  | some op =>
      obtain ⟨sole, undriven⟩ := drivers_erase_queueOp
        invariant.driven.drivers_length member resumes
      rw [operation.resume_queueOp resumes]
      refine ⟨?_, ?_⟩
      · rw [apply_core]
        exact invariant.numbered.call op ec isOpen
      · cases invariant.driven with
        | idle _ drivers => simp [drivers] at sole
        | unrun _ _ _ drivers => simp [drivers] at sole
        | completed _ _ _ drivers => simp [drivers] at sole
        | live other rest tasks drivers served ran hasRun =>
            have same : other = op := by simpa [drivers] using sole
            subst same
            exact @InHand.driven_call
              { s with operations := s.operations.erase operation } other rest
              ⟨tasks, undriven, served, ran, hasRun⟩ ec isOpen

theorem Invariant.step {s t : State} {event : Event} (invariant : s.Invariant)
    (stepped : Session.step s event = some t) : t.Invariant := by
  cases event with
  | push =>
      cases stepped
      exact invariant.push
  | start =>
      cases stepped
      refine invariant.other (by constructor <;> rfl) ?_
      simp [startOp, Effect.Undriving]
  | stop graceful =>
      cases stepped
      refine invariant.other (by constructor <;> rfl) ?_
      simp [stopOp, Effect.Undriving]
  | post handler isOpen =>
      simp only [Session.step] at stepped
      split at stepped
      · cases stepped
        exact invariant.post ‹_› isOpen
      · cases stepped
  | resume operation ec isOpen =>
      simp only [Session.step] at stepped
      split at stepped
      case isTrue enabled =>
        cases stepped
        exact invariant.resume enabled.1 ec isOpen
      case isFalse => cases stepped

end State

theorem State.Invariant.live_not_served {s : State} (invariant : s.Invariant)
    {op : QueueOp} (live : op ∈ s.liveOps) : op.task ∉ s.core.served := by
  have driver : Driver.queueOp op ∈ s.drivers :=
    List.mem_append_right _ (List.mem_map_of_mem live)
  cases invariant.driven with
  | idle tasks drivers => simp [drivers] at driver
  | unrun front rest tasks drivers => simp [drivers] at driver
  | completed front rest tasks drivers => simp [drivers] at driver
  | live other rest tasks drivers served =>
      rw [drivers, List.mem_singleton, Driver.queueOp.injEq] at driver
      rw [driver, served]
      exact invariant.numbered.front_not_popped tasks

theorem State.Invariant.driver_ran {s : State} (invariant : s.Invariant)
    {op : QueueOp} (drives : .queueOp op ∈ s.drivers) :
    op.task ∈ s.core.ran := by
  cases invariant.driven with
  | idle tasks drivers => simp [drivers] at drives
  | unrun front rest tasks drivers => simp [drivers] at drives
  | completed front rest tasks drivers => simp [drivers] at drives
  | live other rest tasks drivers served ran hasRun =>
      rw [drivers, List.mem_singleton, Driver.queueOp.injEq] at drives
      exact drives ▸ hasRun

theorem State.mem_drivers {s : State} {operation : Operation} {op : QueueOp}
    (member : operation ∈ s.operations)
    (resumes : operation.queueOp? = some op) : .queueOp op ∈ s.drivers :=
  List.mem_append_right _ (List.mem_map_of_mem
    (List.mem_filterMap.mpr ⟨operation, member, resumes⟩))

theorem State.Invariant.advancing {s : State} (invariant : s.Invariant)
    (posted : .advanceTask ∈ s.posts) :
    ∃ front rest, s.core.tasks = front :: rest ∧
      s.core.served = s.core.popped ++ [front] ∧
      ∀ push ∈ s.core.ran, push ∈ s.core.popped ∨ push = front := by
  obtain ⟨sole, _⟩ :=
    State.drivers_erase_post invariant.driven.drivers_length posted
  cases invariant.driven with
  | idle tasks drivers => simp [drivers] at sole
  | unrun front rest tasks drivers => simp [drivers, Posted.driver] at sole
  | live op rest tasks drivers => simp [drivers, Posted.driver] at sole
  | completed front rest tasks drivers served ran =>
      exact ⟨front, rest, tasks, served, ran⟩

/-- The queue and its driver, as seen from outside.  `accepted` is the order
in which pushes were accepted, so that the front of the queue is the oldest
one that has not been popped. -/
structure State.SoleDriver (s : State) : Prop where
  /-- no driver without a task -/
  idle : s.core.tasks = [] → s.drivers = []
  /-- exactly one driver otherwise, and it belongs to the front task -/
  busy : ∀ front rest, s.core.tasks = front :: rest →
    (s.drivers = [.processTask] ∧ front ∉ s.core.ran) ∨
    (∃ op, s.drivers = [.queueOp op] ∧ op.task = front ∧
      front ∈ s.core.ran ∧ front ∉ s.core.served) ∨
    (s.drivers = [.advanceTask] ∧ s.core.Completed front)
  oneAtATime : s.liveOps.length ≤ 1
  oldestFirst : s.core.accepted = s.core.popped ++ s.core.tasks
  runOnce : s.core.ran.Nodup
  /-- `pop_task` was never called on an empty queue -/
  noEmptyPop : s.core.emptyPops = 0

theorem initial_invariant : machine.start.Invariant where
  numbered := by constructor <;> simp [machine, Core.refusals]
  driven := .idle rfl rfl rfl (by simp [machine])

theorem reached_invariant {s : State} (reached : machine.Reached s) :
    s.Invariant :=
  reached.invariant initial_invariant
    (fun _ _ _ _ invariant _ stepped => invariant.step stepped)

theorem reached_soleDriver {s : State} (reached : machine.Reached s) :
    s.SoleDriver := by
  have invariant := reached_invariant reached
  have atMostOne := invariant.driven.drivers_length
  refine
    { idle := ?_
      busy := ?_
      oneAtATime := ?_
      oldestFirst := invariant.numbered.order
      runOnce := invariant.numbered.ranOnce
      noEmptyPop := invariant.numbered.emptyPops }
  · intro empty
    cases invariant.driven with
    | idle _ drivers => exact drivers
    | unrun front rest tasks => simp [empty] at tasks
    | live op rest tasks => simp [empty] at tasks
    | completed front rest tasks => simp [empty] at tasks
  · intro front rest queue
    have notPopped := invariant.numbered.front_not_popped queue
    cases invariant.driven with
    | idle tasks => simp [queue] at tasks
    | unrun other rest' tasks drivers served ran =>
        exact .inl ⟨drivers, fun hasRun => notPopped (ran front hasRun)⟩
    | live op rest' tasks drivers served ran hasRun =>
        have same : op.task = front := by
          rw [queue] at tasks
          exact (List.cons.inj tasks).1.symm
        refine .inr (.inl ⟨op, drivers, same, same ▸ hasRun, ?_⟩)
        rw [served]
        exact notPopped
    | completed other rest' tasks drivers served ran posted =>
        have same : other = front := by
          rw [queue] at tasks
          exact (List.cons.inj tasks).1.symm
        exact .inr (.inr ⟨drivers, same ▸ posted⟩)
  · simp only [State.drivers, List.length_append, List.length_map] at atMostOne
    omega

def retryRun : List Event :=
  [.push, .push, .post .processTask true,
    .resume (.exchange ⟨0, none, .exchanged, true⟩) (some .eof) true,
    .resume (.close .yes (.queue ⟨0, some .eof, .closed, true⟩)) none true]

theorem soleDriver_of_retryRun :
    ∃ s, machine.run machine.start retryRun = some s ∧
      s.posts = [.retry ⟨0, some .eof, .entry, false⟩] ∧
      s.core.tasks = [0, 1] ∧ s.SoleDriver :=
  ⟨_, rfl, rfl, rfl,
    reached_soleDriver (Lib.Machine.reached_of_run retryRun rfl)⟩

end Fetchpp.Session

import Fetchpp.Session.Failing

/-!
# The story of a request

What `process_queue_op` does for one request: connects, exchanges and closes,
how each of them ends, and the error its handler is posted with.  In a session
that is not started or stopped, on a transport whose closes leave no open
socket, every request goes through a part of one of five stories.
-/

namespace Fetchpp.Session

/-- What happens in the processing of a request. -/
inductive Deed where
  | connect
  | connected (ec : Option ErrorCode)
  | exchange
  | exchanged (ec : Option ErrorCode)
  | close
  | closed (ec : Option ErrorCode)
  /-- the handler is posted by `complete` -/
  | finished (ec : Option ErrorCode)
  deriving DecidableEq, Repr

/-- A deed and the request it is done for. -/
abbrev Note := PushId × Deed

/-- The start of an operation for a request. -/
def Effect.notes : Effect → List Note
  | .connect (.queue op) => [(op.task, .connect)]
  | .exchange op => [(op.task, .exchange)]
  | .close _ (.queue op) => [(op.task, .close)]
  | _ => []

/-- The end of an operation for a request. -/
def Operation.notes (ec : Option ErrorCode) : Operation → List Note
  | .connect (.queue op) => [(op.task, .connected ec)]
  | .exchange op => [(op.task, .exchanged ec)]
  | .close _ (.queue op) => [(op.task, .closed ec)]
  | _ => []

/-- The handler of a request that was processed. -/
def Posting.notes (posting : Posting) : List Note :=
  match posting.poster with
  | .complete => [(posting.push, .finished posting.ec)]
  | _ => []

def Event.resumption : Event → List Note
  | .resume operation ec _ => operation.notes ec
  | _ => []

def Outcome.notes (c : Core) (outcome : Outcome) : List Note :=
  (outcome.1.posted.drop c.posted.length).flatMap Posting.notes ++
    outcome.2.flatMap Effect.notes

/-- What a step of the session writes into the log. -/
def Event.notes (s : State) (event : Event) : List Note :=
  event.resumption ++ (event.outcome s.core).notes s.core

/-- What the log tells of one request. -/
def told (push : PushId) (log : List Note) : List Deed :=
  log.filterMap (fun note => if note.1 = push then some note.2 else none)

/-- How the first exchange is reached: on the open connection, or on one that
is opened for it. -/
inductive Opening : List Deed → Prop where
  | reused : Opening []
  | connected : Opening [.connect, .connected none]

/-- The first exchange fails with `first`, and its connection is closed. -/
def firstRound (opening : List Deed) (first : ErrorCode)
    (closing : Option ErrorCode) : List Deed :=
  opening ++ [.exchange, .exchanged (some first), .close, .closed closing]

inductive Story : List Deed → Prop where
  | unconnected (error : ErrorCode) :
      Story [.connect, .connected (some error), .finished (some error)]
  | served {opening : List Deed} :
      Opening opening →
      Story (opening ++ [.exchange, .exchanged none, .finished none])
  | unreconnected {opening : List Deed} (first error : ErrorCode)
      (closing : Option ErrorCode) :
      Opening opening →
      Story (firstRound opening first closing ++
        [.connect, .connected (some error), .finished (some error)])
  | servedAgain {opening : List Deed} (first : ErrorCode)
      (closing : Option ErrorCode) :
      Opening opening →
      Story (firstRound opening first closing ++
        [.connect, .connected none, .exchange, .exchanged none,
          .finished none])
  | failedTwice {opening : List Deed} (first second : ErrorCode)
      (closing closing' : Option ErrorCode) :
      Opening opening →
      Story (firstRound opening first closing ++
        [.connect, .connected none, .exchange, .exchanged (some second),
          .close, .closed closing', .finished (some second)])

/-- What has happened when a `process_queue_op` waits for an operation. -/
inductive Telling (task : PushId) : Operation → List Deed → Prop where
  | connecting :
      Telling task (.connect (.queue ⟨task, none, .connected, true⟩))
        [.connect]
  | exchanging {opening : List Deed} :
      Opening opening →
      Telling task (.exchange ⟨task, none, .exchanged, true⟩)
        (opening ++ [.exchange])
  | closing {opening : List Deed} (first : ErrorCode) :
      Opening opening →
      Telling task (.close .yes (.queue ⟨task, some first, .closed, true⟩))
        (opening ++ [.exchange, .exchanged (some first), .close])
  | reconnecting {opening : List Deed} (first : ErrorCode)
      (closing : Option ErrorCode) :
      Opening opening →
      Telling task
        (.connect (.queue ⟨task, some first, .connected, false⟩))
        (firstRound opening first closing ++ [.connect])
  | reexchanging {opening : List Deed} (first : ErrorCode)
      (closing : Option ErrorCode) :
      Opening opening →
      Telling task (.exchange ⟨task, some first, .exchanged, false⟩)
        (firstRound opening first closing ++
          [.connect, .connected none, .exchange])
  | reclosing {opening : List Deed} (first second : ErrorCode)
      (closing : Option ErrorCode) :
      Opening opening →
      Telling task
        (.close .yes (.queue ⟨task, some second, .closed, false⟩))
        (firstRound opening first closing ++
          [.connect, .connected none, .exchange, .exchanged (some second),
            .close])

/-- What has happened when a `process_queue_op` has posted itself. -/
inductive Retelling (task : PushId) : QueueOp → List Deed → Prop where
  | retry {opening : List Deed} (first : ErrorCode)
      (closing : Option ErrorCode) :
      Opening opening →
      Retelling task ⟨task, some first, .entry, false⟩
        (firstRound opening first closing)

/-- The outcome of a handler of the request, of which `deeds` have happened. -/
inductive Core.Goes (c : Core) (task : PushId) (deeds : List Deed) :
    Outcome → Prop where
  | finishes (running : Bool) (ec : Option ErrorCode) :
      Story (deeds ++ [.finished ec]) →
      Goes c task deeds
        ({ c with running := running }.postHandler ⟨task, ec, .complete⟩,
          [.post .advanceTask])
  | awaits {operation : Operation} {deed : Deed} :
      Telling task operation (deeds ++ [deed]) →
      operation.effect.notes = [(task, deed)] →
      Goes c task deeds (c, [operation.effect])
  | retries {op : QueueOp} :
      Retelling task op deeds →
      Goes c task deeds (c, [.post (.retry op)])

/-- A step of the surroundings that a session without start and stop can see
on a transport: only the connect is cancelled, and a request is tried again on
a closed socket. -/
def Event.Plain : Event → Prop
  | .start => False
  | .stop _ => False
  | .post (.retry _) isOpen => isOpen = false
  | .resume (.exchange _) ec _ => ec ≠ some .operationAborted
  | .resume (.close _ _) ec _ => ec ≠ some .operationAborted
  | _ => True

theorem Core.goes_entry {c : Core} (running : c.running = true)
    (task : PushId) (isOpen : Bool) :
    c.Goes task [] (QueueOp.call { task := task } none isOpen c) := by
  cases isOpen with
  | false =>
      have outcome : QueueOp.call { task := task } none false c =
          (c, [Operation.effect (.connect
            (.queue ⟨task, none, .connected, true⟩))]) := by
        simp [QueueOp.call, running, Operation.effect]
      rw [outcome]
      exact .awaits .connecting rfl
  | true =>
      have outcome : QueueOp.call { task := task } none true c =
          (c, [Operation.effect (.exchange
            ⟨task, none, .exchanged, true⟩)]) := by
        simp [QueueOp.call, running, Operation.effect]
      rw [outcome]
      exact .awaits (.exchanging .reused) rfl

/-- The outcomes of `process_queue_op::operator()`, one by one. -/
theorem QueueOp.call_aborted (op : QueueOp) (isOpen : Bool) (c : Core) :
    op.call (some .operationAborted) isOpen c =
      ({ c with running := c.running }.postHandler
        ⟨op.task, some .operationAborted, .complete⟩,
        [.post .advanceTask]) := by
  simp [QueueOp.call, QueueOp.complete]

section Calls

variable {c : Core} (running : c.running = true) (task : PushId)
  (saved : Option ErrorCode) (isFirst isOpen : Bool)
include running

theorem QueueOp.call_connected :
    QueueOp.call ⟨task, saved, .connected, isFirst⟩ none isOpen c =
      (c, [Operation.effect (.exchange
        ⟨task, saved, .exchanged, isFirst⟩)]) := by
  simp [QueueOp.call, running, Operation.effect]

theorem QueueOp.call_unconnected (error : ErrorCode) :
    ∃ running, QueueOp.call ⟨task, saved, .connected, isFirst⟩ (some error)
        isOpen c =
      ({ c with running := running }.postHandler
        ⟨task, some error, .complete⟩, [.post .advanceTask]) := by
  by_cases aborted : error = .operationAborted
  · subst aborted
    exact ⟨c.running, QueueOp.call_aborted _ isOpen c⟩
  · refine ⟨false, ?_⟩
    simp [QueueOp.call, running, aborted, QueueOp.complete, Core.setRunning]

theorem QueueOp.call_served :
    QueueOp.call ⟨task, saved, .exchanged, isFirst⟩ none isOpen c =
      ({ c with running := c.running }.postHandler ⟨task, none, .complete⟩,
        [.post .advanceTask]) := by
  simp [QueueOp.call, running, QueueOp.complete]

theorem QueueOp.call_unserved {error : ErrorCode}
    (notAborted : error ≠ .operationAborted) :
    QueueOp.call ⟨task, saved, .exchanged, isFirst⟩ (some error) isOpen c =
      (c, [Operation.effect (.close .yes
        (.queue ⟨task, some error, .closed, isFirst⟩))]) := by
  simp [QueueOp.call, running, notAborted, Operation.effect]

theorem QueueOp.call_again {ec : Option ErrorCode}
    (notAborted : ec ≠ some .operationAborted) :
    QueueOp.call ⟨task, saved, .closed, true⟩ ec isOpen c =
      (c, [.post (.retry ⟨task, saved, .entry, false⟩)]) := by
  simp [QueueOp.call, running, notAborted]

theorem QueueOp.call_givenUp {ec : Option ErrorCode}
    (notAborted : ec ≠ some .operationAborted) :
    QueueOp.call ⟨task, saved, .closed, false⟩ ec isOpen c =
      ({ c with running := false }.postHandler ⟨task, saved, .complete⟩,
        [.post .advanceTask]) := by
  simp [QueueOp.call, running, notAborted, QueueOp.complete, Core.setRunning]

end Calls

theorem Telling.resumed {task : PushId} {operation : Operation}
    {deeds : List Deed} (telling : Telling task operation deeds) {c : Core}
    (running : c.running = true) {ec : Option ErrorCode} {isOpen : Bool}
    (plain : (Event.resume operation ec isOpen).Plain) :
    ∃ deed, operation.notes ec = [(task, deed)] ∧
      c.Goes task (deeds ++ [deed]) (operation.resume isOpen ec c) := by
  cases telling with
  | connecting =>
      refine ⟨.connected ec, rfl, ?_⟩
      simp only [Operation.resume]
      cases ec with
      | none =>
          rw [QueueOp.call_connected running]
          exact .awaits (.exchanging .connected) rfl
      | some error =>
          obtain ⟨flag, outcome⟩ :=
            QueueOp.call_unconnected running task none true isOpen error
          rw [outcome]
          exact .finishes flag _ (.unconnected error)
  | @exchanging opening opened =>
      refine ⟨.exchanged ec, rfl, ?_⟩
      simp only [Operation.resume]
      cases ec with
      | none =>
          rw [QueueOp.call_served running]
          refine .finishes _ _ ?_
          simpa using Story.served opened
      | some error =>
          have notAborted : error ≠ .operationAborted :=
            fun same => plain (congrArg some same)
          rw [QueueOp.call_unserved running _ _ _ _ notAborted]
          refine .awaits ?_ rfl
          simpa using Telling.closing error opened
  | @closing opening first opened =>
      refine ⟨.closed ec, rfl, ?_⟩
      simp only [Operation.resume]
      rw [QueueOp.call_again running _ _ _ plain]
      refine .retries ?_
      simpa [firstRound] using Retelling.retry first ec opened
  | @reconnecting opening first closing opened =>
      refine ⟨.connected ec, rfl, ?_⟩
      simp only [Operation.resume]
      cases ec with
      | none =>
          rw [QueueOp.call_connected running]
          refine .awaits ?_ rfl
          simpa using Telling.reexchanging first closing opened
      | some error =>
          obtain ⟨flag, outcome⟩ :=
            QueueOp.call_unconnected running task (some first) false isOpen
              error
          rw [outcome]
          refine .finishes flag _ ?_
          simpa using Story.unreconnected first error closing opened
  | @reexchanging opening first closing opened =>
      refine ⟨.exchanged ec, rfl, ?_⟩
      simp only [Operation.resume]
      cases ec with
      | none =>
          rw [QueueOp.call_served running]
          refine .finishes _ _ ?_
          simpa using Story.servedAgain first closing opened
      | some second =>
          have notAborted : second ≠ .operationAborted :=
            fun same => plain (congrArg some same)
          rw [QueueOp.call_unserved running _ _ _ _ notAborted]
          refine .awaits ?_ rfl
          simpa using Telling.reclosing first second closing opened
  | @reclosing opening first second closing opened =>
      refine ⟨.closed ec, rfl, ?_⟩
      simp only [Operation.resume]
      rw [QueueOp.call_givenUp running _ _ _ plain]
      refine .finishes _ _ ?_
      simpa using Story.failedTwice first second closing ec opened

theorem Retelling.retried {task : PushId} {op : QueueOp} {deeds : List Deed}
    (retelling : Retelling task op deeds) {c : Core}
    (running : c.running = true) :
    c.Goes task deeds (op.call none false c) := by
  cases retelling with
  | @retry opening first closing opened =>
      have outcome : QueueOp.call ⟨task, some first, .entry, false⟩ none false
          c = (c, [Operation.effect (.connect
            (.queue ⟨task, some first, .connected, false⟩))]) := by
        simp [QueueOp.call, running, Operation.effect]
      rw [outcome]
      exact .awaits (.reconnecting first closing opened) rfl

theorem Telling.queueOp {task : PushId} {operation : Operation}
    {deeds : List Deed} (telling : Telling task operation deeds) :
    ∃ op, operation.queueOp? = some op := by
  cases telling with
  | connecting => exact ⟨_, rfl⟩
  | exchanging => exact ⟨_, rfl⟩
  | closing => exact ⟨_, rfl⟩
  | reconnecting => exact ⟨_, rfl⟩
  | reexchanging => exact ⟨_, rfl⟩
  | reclosing => exact ⟨_, rfl⟩

theorem Telling.ne_nil {task : PushId} {operation : Operation}
    {deeds : List Deed} (telling : Telling task operation deeds) :
    deeds ≠ [] := by
  cases telling <;> simp

theorem Retelling.ne_nil {task : PushId} {op : QueueOp} {deeds : List Deed}
    (retelling : Retelling task op deeds) : deeds ≠ [] := by
  cases retelling
  simp [firstRound]

@[simp] theorem told_append (push : PushId) (log notes : List Note) :
    told push (log ++ notes) = told push log ++ told push notes :=
  List.filterMap_append

@[simp] theorem told_single (push task : PushId) (deed : Deed) :
    told push [(task, deed)] = if task = push then [deed] else [] := by
  by_cases same : task = push
  · simp [told, same]
  · simp [told, same]

namespace State

/-- Every request that was taken up, apart from `current`, is done with. -/
def Ended (s : State) (log : List Note) (current : Option PushId) : Prop :=
  ∀ push ∈ s.core.ran, some push ≠ current → Story (told push log)

/-- The work of the strand, and what was told before it. -/
inductive Tells (s : State) (log : List Note) : Prop where
  | idle (tasks : s.core.tasks = []) (posts : s.posts = [])
      (operations : s.operations = []) (ended : s.Ended log none)
  | unrun (running : s.core.running = true) (posts : s.posts = [.processTask])
      (operations : s.operations = []) (ended : s.Ended log none)
  | waiting (running : s.core.running = true) (task : PushId)
      (operation : Operation) (posts : s.posts = [])
      (operations : s.operations = [operation])
      (telling : Telling task operation (told task log))
      (ended : s.Ended log (some task))
  | retrying (running : s.core.running = true) (task : PushId) (op : QueueOp)
      (posts : s.posts = [.retry op]) (operations : s.operations = [])
      (retelling : Retelling task op (told task log))
      (ended : s.Ended log (some task))
  | completed (posts : s.posts = [.advanceTask])
      (operations : s.operations = []) (ended : s.Ended log none)

structure Chronicled (s : State) (log : List Note) : Prop where
  tells : s.Tells log
  /-- nothing is told of a request that was not taken up -/
  fresh : ∀ push, push ∉ s.core.ran → told push log = []

theorem Chronicled.taken {s : State} {log : List Note}
    (chronicled : s.Chronicled log) {task : PushId}
    (some : told task log ≠ []) : task ∈ s.core.ran := by
  by_cases taken : task ∈ s.core.ran
  · exact taken
  · exact (some (chronicled.fresh task taken)).elim

theorem perform_telling {s : State} (operations : s.operations = [])
    {task : PushId} {operation : Operation} {deeds : List Deed}
    (telling : Telling task operation deeds) :
    s.perform operation.effect = { s with operations := [operation] } := by
  cases telling <;> simp [perform, Operation.effect, operations]

theorem chronicled_goes {s : State} {log : List Note} (posts : s.posts = [])
    (operations : s.operations = []) {task : PushId} {outcome : Outcome}
    (goes : s.core.Goes task (told task log) outcome)
    (running : s.core.running = true) (taken : task ∈ s.core.ran)
    (ended : s.Ended log (some task))
    (fresh : ∀ push, push ∉ s.core.ran → told push log = []) :
    (s.apply outcome).Chronicled (log ++ outcome.notes s.core) := by
  have other : ∀ (deed : Deed) (push : PushId), push ≠ task →
      told push (log ++ [(task, deed)]) = told push log := by
    intro deed push different
    simp [Ne.symm different]
  have untaken : ∀ push, push ∉ s.core.ran → push ≠ task := by
    rintro push absent rfl
    exact absent taken
  cases goes with
  | finishes flag ec story =>
      have notes : Outcome.notes s.core
          ({ s.core with running := flag }.postHandler ⟨task, ec, .complete⟩,
            [.post .advanceTask]) = [(task, .finished ec)] := by
        simp [Outcome.notes, Core.postHandler, Posting.notes, Effect.notes]
      rw [notes, apply_cons_nil]
      refine ⟨.completed ?_ operations ?_, ?_⟩
      · simp [perform, posts]
      · intro push member _
        by_cases same : push = task
        · subst same
          simpa using story
        · rw [other _ push same]
          exact ended push member (by simpa using same)
      · intro push absent
        rw [other _ push (untaken push absent)]
        exact fresh push absent
  | @awaits operation deed telling noted =>
      have notes : Outcome.notes s.core (s.core, [operation.effect]) =
          [(task, deed)] := by
        simp [Outcome.notes, noted]
      rw [notes, apply_cons_nil]
      rw [perform_telling operations telling]
      refine ⟨.waiting running task operation posts rfl ?_ ?_, ?_⟩
      · simpa using telling
      · intro push member different
        rw [other _ push (by simpa using different)]
        exact ended push member different
      · intro push absent
        rw [other _ push (untaken push absent)]
        exact fresh push absent
  | @retries op retelling =>
      have notes : Outcome.notes s.core (s.core, [.post (.retry op)]) = [] := by
        simp [Outcome.notes, Effect.notes]
      rw [notes, apply_cons_nil, List.append_nil]
      refine ⟨.retrying running task op ?_ operations retelling ended, fresh⟩
      simp [perform, posts]

theorem chronicled_processTask {s : State} {log : List Note}
    (numbered : s.core.Numbered)
    (ran : ∀ push ∈ s.core.ran, push ∈ s.core.popped)
    (posts : s.posts = []) (operations : s.operations = [])
    (running : s.core.running = true) (ended : s.Ended log none)
    (fresh : ∀ push, push ∉ s.core.ran → told push log = []) (isOpen : Bool) :
    (s.apply (s.core.processTask isOpen)).Chronicled
      (log ++ (s.core.processTask isOpen).notes s.core) := by
  cases tasks : s.core.tasks with
  | nil =>
      simp only [Core.processTask, tasks, apply_nil]
      refine ⟨.idle tasks posts operations ?_, ?_⟩
      · simpa [Outcome.notes, Ended] using ended
      · simpa [Outcome.notes] using fresh
  | cons front rest =>
      have processed : s.core.processTask isOpen =
          s.core.runTask front isOpen := by
        unfold Core.processTask
        rw [tasks]
      rw [processed]
      have untaken : front ∉ s.core.ran := fun member =>
        numbered.front_not_popped tasks (ran front member)
      let c : Core := { s.core with ran := s.core.ran ++ [front] }
      have started : c.Goes front (told front log)
          (QueueOp.call { task := front } none isOpen c) := by
        rw [fresh front untaken]
        exact @Core.goes_entry c running front isOpen
      have next := @chronicled_goes { s with core := c } log posts operations
        front _ started running (by simp [c]) ?_ ?_
      · exact next
      · intro push member different
        rcases List.mem_append.mp member with earlier | single
        · exact ended push earlier (by simp)
        · exact (different (congrArg some
            (List.mem_singleton.mp single))).elim
      · intro push absent
        exact fresh push fun member => absent (List.mem_append_left _ member)

theorem Chronicled.push {s : State} {log : List Note}
    (chronicled : s.Chronicled log) (driven : s.Driven) :
    (s.apply (pushOp s.core)).Chronicled
      (log ++ (pushOp s.core).notes s.core) := by
  cases running : s.core.running with
  | false =>
      have notes : (pushOp s.core).notes s.core = [] := by
        rw [pushOp_stopped running]
        simp [Outcome.notes, Core.postHandler, Posting.notes]
      rw [notes, List.append_nil, pushOp_stopped running, apply_nil]
      refine ⟨?_, chronicled.fresh⟩
      cases chronicled.tells with
      | idle tasks posts operations ended =>
          exact .idle tasks posts operations ended
      | unrun flag => simp [running] at flag
      | waiting flag => simp [running] at flag
      | retrying flag => simp [running] at flag
      | completed posts operations ended =>
          exact .completed posts operations ended
  | true =>
      have notes : (pushOp s.core).notes s.core = [] := by
        rw [pushOp_running running]
        by_cases empty : s.core.tasks = []
        · simp [Outcome.notes, Core.pushTask, Effect.notes, empty]
        · simp [Outcome.notes, Core.pushTask, empty]
      rw [notes, List.append_nil, pushOp_running running]
      have queued : s.drivers ≠ [] → s.core.tasks ≠ [] := by
        intro drives
        cases driven with
        | idle _ drivers => exact (drives drivers).elim
        | unrun front rest tasks => simp [tasks]
        | live op rest tasks => simp [tasks]
        | completed front rest tasks => simp [tasks]
      have busy : s.core.tasks ≠ [] →
          (s.apply ({ s.core with pushes := s.core.pushes + 1 }.pushTask
            s.core.pushes, if s.core.tasks = [] then [.post .processTask]
              else [])) =
          { s with core := { s.core with
              pushes := s.core.pushes + 1 }.pushTask s.core.pushes } := by
        intro tasks
        rw [if_neg tasks, apply_nil]
      refine ⟨?_, ?_⟩
      · cases chronicled.tells with
        | idle tasks posts operations ended =>
            rw [if_pos tasks, apply_cons_nil]
            refine .unrun running ?_ operations ended
            simp [perform, posts]
        | unrun flag posts operations ended =>
            rw [busy (queued (by simp [drivers, posts]))]
            exact .unrun flag posts operations ended
        | waiting flag task operation posts operations telling ended =>
            obtain ⟨op, resumes⟩ := telling.queueOp
            rw [busy (queued (by simp [drivers, liveOps, operations,
              resumes]))]
            exact .waiting flag task operation posts operations telling ended
        | retrying flag task op posts operations retelling ended =>
            rw [busy (queued (by simp [drivers, posts]))]
            exact .retrying flag task op posts operations retelling ended
        | completed posts operations ended =>
            rw [busy (queued (by simp [drivers, posts]))]
            exact .completed posts operations ended
      · rw [apply_core]
        exact chronicled.fresh

-- What is behind the request that has completed is taken up, or cancelled if
-- that request has failed.
private theorem chronicled_advanceTask {s : State} {log : List Note}
    (numbered : s.core.Numbered) {front : PushId} {rest : List PushId}
    (queue : s.core.tasks = front :: rest)
    (ran : ∀ push ∈ s.core.ran, push ∈ s.core.popped ∨ push = front)
    (erased : s.posts.erase .advanceTask = []) (operations : s.operations = [])
    (ended : s.Ended log none)
    (fresh : ∀ push, push ∉ s.core.ran → told push log = []) (isOpen : Bool) :
    ({ s with posts := s.posts.erase .advanceTask }.apply
      (s.core.advanceTask isOpen)).Chronicled
        (log ++ (s.core.advanceTask isOpen).notes s.core) := by
  have popRan : ∀ push ∈ s.core.popTask.ran,
      push ∈ s.core.popTask.popped := by
    simpa [Core.popTask, queue] using ran
  have same : s.core.popTask.ran = s.core.ran ∧
      s.core.popTask.posted = s.core.posted := by
    simp [Core.popTask, queue]
  have popEnded : State.Ended { s with core := s.core.popTask } log none := by
    intro push member
    exact ended push (same.1 ▸ member)
  have popFresh : ∀ push, push ∉ s.core.popTask.ran → told push log = [] := by
    intro push absent
    exact fresh push (same.1 ▸ absent)
  by_cases running : s.core.popTask.running = true
  · have advanced : s.core.advanceTask isOpen =
        s.core.popTask.processTask isOpen := by
      simp [Core.advanceTask, running]
    have notes : Outcome.notes s.core (s.core.popTask.processTask isOpen) =
        (s.core.popTask.processTask isOpen).notes s.core.popTask := by
      simp [Outcome.notes, same.2]
    rw [advanced, notes]
    exact @chronicled_processTask
      { s with
        core := s.core.popTask
        posts := s.posts.erase .advanceTask } log (numbered.popTask queue)
      popRan erased operations running popEnded popFresh isOpen
  · have advanced : s.core.advanceTask isOpen =
        s.core.popTask.cancelAllTasks := by
      simp [Core.advanceTask, running]
    have notes : Outcome.notes s.core s.core.popTask.cancelAllTasks = [] := by
      simp [Outcome.notes, Core.cancelAllTasks, Core.cancelLoop_eq _ _ rfl,
        same.2, Posting.notes, Effect.notes]
    rw [advanced, notes, List.append_nil]
    refine ⟨.idle ?_ erased ?_ ?_, ?_⟩
    · simp [Core.cancelAllTasks, Core.cancelLoop_eq _ _ rfl, perform]
    · simp [Core.cancelAllTasks, perform, operations]
    · intro push member
      refine popEnded push ?_
      simpa [Core.cancelAllTasks, Core.cancelLoop_eq _ _ rfl, perform]
        using member
    · intro push absent
      refine popFresh push ?_
      simpa [Core.cancelAllTasks, Core.cancelLoop_eq _ _ rfl, perform]
        using absent

theorem Chronicled.post {s : State} {log : List Note}
    (chronicled : s.Chronicled log) (invariant : s.Invariant)
    {handler : Posted} (member : handler ∈ s.posts) {isOpen : Bool}
    (plain : (Event.post handler isOpen).Plain) :
    ({ s with posts := s.posts.erase handler }.apply
      (handler.run isOpen s.core)).Chronicled
        (log ++ (handler.run isOpen s.core).notes s.core) := by
  obtain ⟨sole, undriven⟩ :=
    drivers_erase_post invariant.driven.drivers_length member
  obtain ⟨erased, _⟩ := State.drivers_eq_nil.mp undriven
  cases chronicled.tells with
  | idle tasks posts => simp [posts] at member
  | waiting flag task operation posts => simp [posts] at member
  | unrun running posts operations ended =>
      obtain rfl : handler = .processTask := by simpa [posts] using member
      have ran : ∀ push ∈ s.core.ran, push ∈ s.core.popped := by
        cases invariant.driven with
        | idle _ _ _ ran => exact ran
        | unrun front rest _ _ _ ran => exact ran
        | live op rest _ drivers => simp [drivers, Posted.driver] at sole
        | completed front rest _ drivers =>
            simp [drivers, Posted.driver] at sole
      exact @chronicled_processTask
        { s with posts := s.posts.erase .processTask } log invariant.numbered
        ran erased operations running ended chronicled.fresh isOpen
  | retrying running task op posts operations retelling ended =>
      obtain rfl : handler = .retry op := by simpa [posts] using member
      obtain rfl : isOpen = false := plain
      exact @chronicled_goes
        { s with posts := s.posts.erase (.retry op) } log erased operations
        task _ (retelling.retried running) running
        (chronicled.taken retelling.ne_nil) ended chronicled.fresh
  | completed posts operations ended =>
      obtain rfl : handler = .advanceTask := by simpa [posts] using member
      obtain ⟨front, rest, queue, _, ran⟩ := invariant.advancing member
      exact chronicled_advanceTask invariant.numbered queue ran erased operations
        ended chronicled.fresh isOpen

theorem Chronicled.resume {s : State} {log : List Note}
    (chronicled : s.Chronicled log) {operation : Operation}
    (member : operation ∈ s.operations) {ec : Option ErrorCode}
    {isOpen : Bool} (plain : (Event.resume operation ec isOpen).Plain) :
    ({ s with operations := s.operations.erase operation }.apply
      (operation.resume isOpen ec s.core)).Chronicled
        (log ++ (operation.notes ec ++
          (operation.resume isOpen ec s.core).notes s.core)) := by
  cases chronicled.tells with
  | idle tasks posts operations => simp [operations] at member
  | unrun running posts operations => simp [operations] at member
  | retrying running task op posts operations => simp [operations] at member
  | completed posts operations => simp [operations] at member
  | waiting running task awaited posts operations telling ended =>
      obtain rfl : operation = awaited := by simpa [operations] using member
      have taken := chronicled.taken telling.ne_nil
      obtain ⟨deed, noted, goes⟩ := telling.resumed running plain
      have untaken : ∀ push, push ∉ s.core.ran → push ≠ task := by
        rintro push absent rfl
        exact absent taken
      have other : ∀ push, push ≠ task →
          told push (log ++ [(task, deed)]) = told push log := by
        intro push different
        simp [Ne.symm different]
      rw [noted, ← List.append_assoc]
      refine @chronicled_goes
        { s with operations := s.operations.erase operation }
        (log ++ [(task, deed)]) posts (by simp [operations]) task _
        (by simpa using goes) running taken ?_ ?_
      · intro push member different
        rw [other push (by simpa using different)]
        exact ended push member different
      · intro push absent
        rw [other push (untaken push absent)]
        exact chronicled.fresh push absent

theorem Chronicled.step {s t : State} {log : List Note} {event : Event}
    (chronicled : s.Chronicled log) (invariant : s.Invariant)
    (plain : event.Plain) (stepped : Session.step s event = some t) :
    t.Chronicled (log ++ event.notes s) := by
  obtain ⟨enabled, rfl⟩ := step_eq stepped
  cases event with
  | push => exact chronicled.push invariant.driven
  | start => exact plain.elim
  | stop graceful => exact plain.elim
  | post handler isOpen => exact chronicled.post invariant enabled plain
  | resume operation ec isOpen => exact chronicled.resume enabled.1 plain

end State

theorem reached_chronicled {s : State × List Note}
    (reached : (machine.logged (fun s event => event.notes s)).ReachedBy
      (fun _ event => event.Plain) s) : s.1.Chronicled s.2 := by
  induction reached with
  | start =>
      exact ⟨.idle rfl rfl rfl (by simp [State.Ended, Lib.Machine.logged,
        machine]), fun _ _ => rfl⟩
  | @step before after event earlier plain stepped chronicled =>
      obtain ⟨underlying, log⟩ := Lib.Machine.logged_step stepped
      have unlogged : machine.ReachedBy (fun _ event => event.Plain)
          before.1 := earlier.unlogged
      rw [log]
      exact chronicled.step (reached_invariant unlogged.reached) plain
        underlying

/-- What is told of a request whose operation is in flight goes on to a
story. -/
theorem Telling.story {task : PushId} {operation : Operation}
    {deeds : List Deed} (telling : Telling task operation deeds) :
    ∃ story, Story story ∧ deeds <+: story := by
  cases telling with
  | connecting => exact ⟨_, .unconnected .eof, by simp⟩
  | exchanging opened => exact ⟨_, .served opened, by simp⟩
  | closing first opened =>
      refine ⟨_, .servedAgain first none opened, ?_⟩
      simp [firstRound]
  | reconnecting first closing opened =>
      refine ⟨_, .servedAgain first closing opened, ?_⟩
      simp [firstRound]
  | reexchanging first closing opened =>
      refine ⟨_, .servedAgain first closing opened, ?_⟩
      simp [firstRound]
  | reclosing first second closing opened =>
      refine ⟨_, .failedTwice first second closing none opened, ?_⟩
      simp [firstRound]

theorem Retelling.story {task : PushId} {op : QueueOp} {deeds : List Deed}
    (retelling : Retelling task op deeds) :
    ∃ story, Story story ∧ deeds <+: story := by
  cases retelling with
  | retry first closing opened =>
      exact ⟨_, .servedAgain first closing opened, by simp⟩

/-- Every request goes through a part of a story, and a request whose handler
was posted by `complete` through a whole one. -/
theorem State.Chronicled.story {s : State} {log : List Note}
    (chronicled : s.Chronicled log) (push : PushId) :
    ∃ story, Story story ∧ told push log <+: story := by
  by_cases taken : push ∈ s.core.ran
  · have whole : Story (told push log) →
        ∃ story, Story story ∧ told push log <+: story :=
      fun story => ⟨_, story, List.prefix_refl _⟩
    have current : ∀ task, s.Ended log (some task) → push ≠ task →
        ∃ story, Story story ∧ told push log <+: story :=
      fun task ended different => whole (ended push taken (by simpa))
    cases chronicled.tells with
    | idle _ _ _ ended => exact whole (ended push taken (by simp))
    | unrun _ _ _ ended => exact whole (ended push taken (by simp))
    | completed _ _ ended => exact whole (ended push taken (by simp))
    | waiting _ task operation _ _ telling ended =>
        by_cases same : push = task
        · exact same ▸ telling.story
        · exact current task ended same
    | retrying _ task op _ _ retelling ended =>
        by_cases same : push = task
        · exact same ▸ retelling.story
        · exact current task ended same
  · rw [chronicled.fresh push taken]
    exact ⟨_, .unconnected .eof, List.nil_prefix⟩

/-- At rest the story of every request that was taken up has been told. -/
theorem State.Chronicled.ended {s : State} {log : List Note}
    (chronicled : s.Chronicled log) (posts : s.posts = [])
    (operations : s.operations = []) {push : PushId}
    (taken : push ∈ s.core.ran) : Story (told push log) := by
  cases chronicled.tells with
  | idle _ _ _ ended => exact ended push taken (by simp)
  | unrun _ posted => simp [posts] at posted
  | waiting _ _ _ _ awaited => simp [operations] at awaited
  | retrying _ _ _ posted => simp [posts] at posted
  | completed posted => simp [posts] at posted

theorem Story.finished {deeds : List Deed} (story : Story deeds) :
    ∃ ec, deeds.getLast? = some (.finished ec) := by
  cases story <;> simp

theorem Telling.not_story {task : PushId} {operation : Operation}
    {deeds : List Deed} (telling : Telling task operation deeds) :
    ¬Story deeds := by
  intro story
  obtain ⟨ec, last⟩ := story.finished
  cases telling <;> simp at last

theorem QueueOp.posted_call (op : QueueOp) (ec : Option ErrorCode)
    (isOpen : Bool) (c : Core) : c.posted <+: (op.call ec isOpen c).1.posted := by
  rcases op.call_cases ec isOpen c with ⟨result, running, ended⟩ |
    ⟨effect, next, continued, _⟩
  · rw [ended]
    exact List.prefix_append _ _
  · simp [continued]

theorem Core.posted_processTask (isOpen : Bool) (c : Core) :
    c.posted <+: (c.processTask isOpen).1.posted := by
  unfold Core.processTask
  split
  · exact List.prefix_refl _
  · rename_i front rest _
    exact QueueOp.posted_call { task := front } none isOpen
      { c with ran := c.ran ++ [front] }

theorem Event.outcome_posted (event : Event) (c : Core) :
    c.posted <+: (event.outcome c).1.posted := by
  cases event with
  | push =>
      cases running : c.running with
      | false =>
          simp only [outcome, pushOp_stopped running]
          exact List.prefix_append _ _
      | true =>
          simp only [outcome, pushOp_running running]
          exact List.prefix_refl _
  | start => exact List.prefix_refl _
  | stop graceful => exact List.prefix_refl _
  | post handler isOpen =>
      cases handler with
      | processTask => exact c.posted_processTask isOpen
      | retry op => exact op.posted_call none isOpen c
      | advanceTask =>
          have popped : c.popTask.posted = c.posted :=
            (Core.TracksFailure.popTask c).2
          rw [← popped]
          simp only [outcome, Posted.run, Core.advanceTask]
          split
          · exact c.popTask.posted_processTask isOpen
          · simp only [Core.cancelAllTasks, Core.cancelLoop_eq _ _ rfl]
            exact List.prefix_append _ _
  | resume operation ec isOpen =>
      cases resumes : operation.queueOp? with
      | some op =>
          simp only [outcome, operation.resume_queueOp resumes]
          exact op.posted_call ec isOpen c
      | none =>
          have kept := (operation.resume_other resumes isOpen ec c).1.posted
          simp only [outcome, kept]
          exact List.prefix_refl _

theorem Posting.finished_mem_notes {posting : Posting} {push : PushId}
    {ec : Option ErrorCode} :
    (push, .finished ec) ∈ posting.notes ↔ posting = ⟨push, ec, .complete⟩ := by
  obtain ⟨task, result, poster⟩ := posting
  cases poster with
  | refusal => simp [notes]
  | cancel => simp [notes]
  | complete =>
      simp only [notes, List.mem_singleton, Prod.mk.injEq, Deed.finished.injEq,
        Posting.mk.injEq, and_true]
      exact ⟨fun ⟨same, equal⟩ => ⟨same.symm, equal.symm⟩,
        fun ⟨same, equal⟩ => ⟨same.symm, equal.symm⟩⟩

theorem Effect.finished_not_mem_notes (effect : Effect) (push : PushId)
    (ec : Option ErrorCode) : (push, .finished ec) ∉ effect.notes := by
  cases effect with
  | post handler => simp [notes]
  | exchange op => simp [notes]
  | wait stop => simp [notes]
  | cancelTimer => simp [notes]
  | connect caller => cases caller <;> simp [notes]
  | close graceful caller => cases caller <;> simp [notes]

theorem Event.finished_not_mem_resumption (event : Event) (push : PushId)
    (ec : Option ErrorCode) : (push, .finished ec) ∉ event.resumption := by
  cases event with
  | push => simp [resumption]
  | start => simp [resumption]
  | stop graceful => simp [resumption]
  | post handler isOpen => simp [resumption]
  | resume operation result isOpen =>
      cases operation with
      | exchange op => simp [resumption, Operation.notes]
      | wait stop cancelled => simp [resumption, Operation.notes]
      | connect caller =>
          cases caller <;> simp [resumption, Operation.notes]
      | close graceful caller =>
          cases caller <;> simp [resumption, Operation.notes]

/-- The log has the handlers that `complete` posted, and no others. -/
def Core.Logged (c : Core) (log : List Note) : Prop :=
  ∀ push ec, (push, .finished ec) ∈ log ↔ ⟨push, ec, .complete⟩ ∈ c.posted

theorem Core.Logged.step {s t : State} {log : List Note} {event : Event}
    (logged : s.core.Logged log) (stepped : Session.step s event = some t) :
    t.core.Logged (log ++ event.notes s) := by
  obtain ⟨_, rfl⟩ := step_eq stepped
  intro push ec
  obtain ⟨added, posted⟩ := event.outcome_posted s.core
  have fromEffects : (push, Deed.finished ec) ∉
      (event.outcome s.core).2.flatMap Effect.notes := by
    intro member
    obtain ⟨effect, _, noted⟩ := List.mem_flatMap.mp member
    exact effect.finished_not_mem_notes push ec noted
  rw [State.apply_core, ← posted, List.mem_append, List.mem_append,
    logged push ec]
  refine or_congr_right ?_
  rw [Event.notes, List.mem_append, Outcome.notes, ← posted,
    List.drop_left, List.mem_append]
  constructor
  · rintro (resumed | handlers | effects)
    · exact (event.finished_not_mem_resumption push ec resumed).elim
    · obtain ⟨posting, member, noted⟩ := List.mem_flatMap.mp handlers
      exact Posting.finished_mem_notes.mp noted ▸ member
    · exact (fromEffects effects).elim
  · intro member
    exact .inr (.inl (List.mem_flatMap.mpr
      ⟨_, member, Posting.finished_mem_notes.mpr rfl⟩))

theorem reached_logged {s : State × List Note}
    (reached : (machine.logged (fun s event => event.notes s)).Reached s) :
    s.1.core.Logged s.2 := by
  induction reached with
  | start => simp [Core.Logged, Lib.Machine.logged, machine]
  | step earlier allowed stepped logged =>
      obtain ⟨underlying, log⟩ := Lib.Machine.logged_step stepped
      rw [log]
      exact logged.step underlying

theorem mem_told {push : PushId} {log : List Note} {deed : Deed} :
    deed ∈ told push log ↔ (push, deed) ∈ log := by
  simp only [told, List.mem_filterMap, Option.ite_none_right_eq_some,
    Option.some.injEq]
  constructor
  · rintro ⟨⟨task, other⟩, member, rfl, rfl⟩
    exact member
  · intro member
    exact ⟨(push, deed), member, rfl, rfl⟩

theorem QueueOp.retry_of_call {op next : QueueOp} {ec : Option ErrorCode}
    {isOpen : Bool} {c : Core}
    (posted : .post (.retry next) ∈ (op.call ec isOpen c).2) :
    op.coro = .closed := by
  obtain ⟨effect, one, yields⟩ := op.call_yields ec isOpen c
  rw [one, List.mem_singleton] at posted
  subst posted
  unfold QueueOp.call at one
  split at one
  case isTrue => simp [QueueOp.complete] at one
  case isFalse =>
    cases coro : op.coro with
    | closed => rfl
    | entry =>
        simp only [coro] at one
        split at one <;> simp at one
    | connected => cases ec <;> simp [coro, QueueOp.complete] at one
    | exchanged => cases ec <;> simp [coro, QueueOp.complete] at one

theorem Core.retry_of_processTask {c : Core} {isOpen : Bool} {next : QueueOp} :
    .post (.retry next) ∉ (c.processTask isOpen).2 := by
  unfold Core.processTask
  split
  · simp
  · intro posted
    cases QueueOp.retry_of_call posted

theorem Event.retry_posted {event : Event} (point : event.AtPoint) {c : Core}
    {next : QueueOp} (posted : .post (.retry next) ∈ (event.outcome c).2) :
    ∃ graceful op ec isOpen,
      event = .resume (.close graceful (.queue op)) ec isOpen := by
  cases event with
  | push =>
      cases running : c.running with
      | false => simp [outcome, pushOp_stopped running] at posted
      | true =>
          simp only [outcome, pushOp_running running] at posted
          split at posted <;> simp at posted
  | start => simp [outcome, startOp] at posted
  | stop graceful => simp [outcome, stopOp] at posted
  | post handler isOpen =>
      cases handler with
      | processTask => exact (Core.retry_of_processTask posted).elim
      | retry op =>
          have entry : op.coro = .entry := point
          have closed := QueueOp.retry_of_call posted
          simp [entry] at closed
      | advanceTask =>
          simp only [outcome, Posted.run, Core.advanceTask] at posted
          split at posted
          · exact (Core.retry_of_processTask posted).elim
          · simp [Core.cancelAllTasks] at posted
  | resume operation ec isOpen =>
      cases operation with
      | wait stop cancelled =>
          simp only [outcome, Operation.resume, stopWaited] at posted
          split at posted <;> simp [callStopHandler] at posted
      | exchange op =>
          have exchanged : op.coro = .exchanged := point
          have closed := QueueOp.retry_of_call posted
          simp [exchanged] at closed
      | connect caller =>
          cases caller with
          | start handler => simp [outcome, Operation.resume,
              startConnected] at posted
          | queue op =>
              have connected : op.coro = .connected := point
              have closed := QueueOp.retry_of_call posted
              simp [connected] at closed
      | close graceful caller =>
          cases caller with
          | queue op => exact ⟨graceful, op, ec, isOpen, rfl⟩
          | stop handler =>
              simp only [outcome, Operation.resume, stopClosed] at posted
              split at posted <;> simp [callStopHandler] at posted

theorem push_of_posts_taken {s : State}
    (reached : machine.ReachedBy (fun _ event => event.PushOnly) s)
    {event : Event} (pushOnly : event.PushOnly) (enabled : event.Enabled s)
    {handler : Posted} (posted : handler ∈ (event.taken s).posts) :
    event = .push := by
  have atMostOne := (reached_invariant reached.reached).driven.drivers_length
  cases event with
  | push => rfl
  | start => exact pushOnly.elim
  | stop graceful => exact pushOnly.elim
  | post taken isOpen =>
      have undriven := (State.drivers_erase_post atMostOne enabled).2
      have noPosts := (State.drivers_eq_nil.mp undriven).1
      simp only [Event.taken, noPosts] at posted
      cases posted
  | resume operation ec isOpen =>
      obtain ⟨op, resumes⟩ := Option.isSome_iff_exists.mp
        (reached_driven reached operation enabled.1)
      have undriven :=
        (State.drivers_erase_queueOp atMostOne enabled.1 resumes).2
      have noPosts := (State.drivers_eq_nil.mp undriven).1
      simp only [Event.taken, noPosts] at posted
      cases posted

theorem State.posts_apply {s : State} {outcome : Outcome} {handler : Posted}
    (member : handler ∈ (s.apply outcome).posts) :
    handler ∈ s.posts ∨ .post handler ∈ outcome.2 := by
  obtain ⟨core, effects⟩ := outcome
  have traced : ∀ t : State,
      handler ∈ (effects.foldl State.perform t).posts →
      handler ∈ t.posts ∨ .post handler ∈ effects := by
    clear member
    induction effects with
    | nil => exact fun _ posted => .inl posted
    | cons effect rest induction =>
        intro t later
        rcases induction (t.perform effect) later with now | posted
        · cases effect with
          | post other =>
              rcases List.mem_append.mp now with before | single
              · exact .inl before
              · exact .inr (List.mem_singleton.mp single ▸
                  List.mem_cons_self)
          | connect caller => exact .inl now
          | exchange op => exact .inl now
          | close graceful caller => exact .inl now
          | wait stop => exact .inl now
          | cancelTimer => exact .inl now
        · exact .inr (List.mem_cons_of_mem _ posted)
  exact traced { s with core := core } member

end Fetchpp.Session

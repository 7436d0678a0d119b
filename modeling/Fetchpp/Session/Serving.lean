import Mathlib.Data.List.Perm.Subperm
import Fetchpp.Lib.Desk
import Fetchpp.Session.Failing
import Fetchpp.Session.Handlers

/-!
# A session is a service desk

What a session is for: a caller of `push_request` is let into the line while
the session runs, the one in front is served, and leaves when its handler is
posted.  Connects, exchanges, closes and retries are nothing but the time a
service takes; a failure shuts the desk, `async_start` opens it again.
-/

namespace Fetchpp.Session

open Lib

/-- Who leaves the desk, and how, when a handler is posted. -/
def Posting.leaving (posting : Posting) : Nat × Leaving ErrorCode :=
  (posting.push,
    match posting.poster, posting.ec with
    | .refusal, _ => .refused
    | _, none => .served
    | _, some .operationAborted => .dismissed
    | _, some error => .failed error)

/-- The tasks whose handlers have not been posted stand in line. -/
def Core.desk (c : Core) : Desk ErrorCode where
  isOpen := c.running
  arrived := c.pushes
  reopened := c.starts
  line := c.tasks.filter (fun task => task ∉ c.served)
  left := c.posted.map Posting.leaving

/-- `process_queue_op::operator()` -/
def QueueOp.deskEvent (op : QueueOp) (ec : Option ErrorCode) (c : Core) :
    Option (Desk.Event ErrorCode) :=
  if !c.running || ec == some .operationAborted then some .dismiss
  else
    match op.coro with
    | .entry => none
    | .connected => ec.map .fail
    | .exchanged => if ec.isSome then none else some .serve
    | .closed => if op.firstRound then none else op.lastEc.map .fail

def Core.processDeskEvent (c : Core) : Option (Desk.Event ErrorCode) :=
  match c.tasks with
  | [] => none
  | front :: _ => QueueOp.deskEvent { task := front } none c

def Posted.deskEvent (c : Core) : Posted → Option (Desk.Event ErrorCode)
  | .processTask => c.processDeskEvent
  | .advanceTask => if c.running then none else some .clear
  | .retry op => op.deskEvent none c

def Event.deskEvent (c : Core) : Event → Option (Desk.Event ErrorCode)
  | .push => some .arrive
  | .start => some .reopen
  | .stop _ => some .shut
  | .post handler _ => handler.deskEvent c
  | .resume operation ec _ =>
      operation.queueOp?.bind (fun op => op.deskEvent ec c)

theorem Core.desk_line_of_served {c : Core} (numbered : c.Numbered)
    (served : c.served = c.popped) : c.desk.line = c.tasks := by
  have nodup := (List.nodup_append.mp numbered.nodup).1
  rw [numbered.order] at nodup
  refine List.filter_eq_self.mpr ?_
  intro task queued
  have fresh : task ∉ c.popped := fun popped =>
    (List.nodup_append.mp nodup).2.2 task popped task queued rfl
  simpa [served] using fresh

theorem Core.desk_line_of_completed {c : Core} (numbered : c.Numbered)
    {front : PushId} {rest : List PushId} (tasks : c.tasks = front :: rest)
    (served : c.served = c.popped ++ [front]) : c.desk.line = rest := by
  have nodup := (List.nodup_append.mp numbered.nodup).1
  rw [numbered.order, tasks, List.append_cons] at nodup
  simp only [Core.desk, tasks, served]
  rw [List.filter_cons_of_neg (by simp)]
  refine List.filter_eq_self.mpr ?_
  intro task queued
  have fresh : task ∉ c.popped ++ [front] := fun earlier =>
    (List.nodup_append.mp nodup).2.2 task earlier task queued rfl
  simpa using fresh

theorem Core.desk_post {c : Core} (numbered : c.Numbered) {front : PushId}
    {rest : List PushId} (tasks : c.tasks = front :: rest)
    (served : c.served = c.popped) (running : Bool)
    (ec : Option ErrorCode) :
    Desk.leave (Posting.leaving ⟨front, ec, .complete⟩).2
        { c.desk with isOpen := running } =
      some ({ c with running := running }.postHandler
        ⟨front, ec, .complete⟩).desk := by
  have line := desk_line_of_served numbered served
  have posted := numbered.post ⟨front, ec, .complete⟩ running (by simp)
  have after := c.served_post running ⟨front, ec, .complete⟩ (by simp)
  rw [served] at after
  have later := desk_line_of_completed posted tasks after
  rw [tasks] at line
  simp only [Desk.leave, line, Option.some.injEq]
  refine Desk.ext rfl rfl rfl later.symm ?_
  simp [Core.desk, Core.postHandler, Posting.leaving]

/-- `process_queue_op::operator()` runs for the request in front. -/
theorem QueueOp.call_moves {op : QueueOp} {c : Core} (numbered : c.Numbered)
    {rest : List PushId} (tasks : c.tasks = op.task :: rest)
    (served : c.served = c.popped) (ec : Option ErrorCode) (isOpen : Bool)
    (saved : op.coro = .closed → isFailure op.lastEc = true) :
    c.desk.Moves (op.call ec isOpen c).1.desk (op.deskEvent ec c) := by
  have posts : ∀ (running : Bool) (result : Option ErrorCode),
      Desk.leave (Posting.leaving ⟨op.task, result, .complete⟩).2
          { c.desk with isOpen := running } =
        some (op.complete result { c with running := running }).1.desk :=
    fun running result => c.desk_post numbered tasks served running result
  have fails : c.running = true → ∀ error, error ≠ .operationAborted →
      c.desk.Moves (op.complete (some error) (c.setRunning false)).1.desk
        (some (.fail error)) := by
    intro running error notAborted
    have left := posts false (some error)
    have how : (Posting.leaving ⟨op.task, some error, .complete⟩).2 =
        .failed error := by
      cases error <;> first | rfl | exact (notAborted rfl).elim
    rw [how] at left
    exact Desk.moves_fail running left
  unfold QueueOp.call QueueOp.deskEvent
  split
  case isTrue => exact posts c.running (some .operationAborted)
  case isFalse proceeds =>
    have running : c.running = true := by
      cases flag : c.running <;> simp [flag] at proceeds ⊢
    have notAborted : ec ≠ some .operationAborted := by
      rintro rfl
      simp at proceeds
    cases coro : op.coro with
    | entry =>
        dsimp only
        split <;> rfl
    | connected =>
        cases ec with
        | none => rfl
        | some error =>
            exact fails running error
              (fun same => notAborted (congrArg some same))
    | exchanged =>
        cases ec with
        | some error => rfl
        | none => exact Desk.moves_serve running (posts c.running none)
    | closed =>
        dsimp only
        split
        case isTrue => rfl
        case isFalse =>
          have failure := saved coro
          cases last : op.lastEc with
          | none => simp [last, isFailure] at failure
          | some error =>
              refine fails running error ?_
              rintro rfl
              simp [last, isFailure] at failure

theorem Core.processTask_moves {c : Core} (numbered : c.Numbered)
    (served : c.served = c.popped) (isOpen : Bool) :
    c.desk.Moves (c.processTask isOpen).1.desk c.processDeskEvent := by
  unfold Core.processTask Core.processDeskEvent
  cases tasks : c.tasks with
  | nil => rfl
  | cons front rest =>
      have moves := @QueueOp.call_moves { task := front } c numbered rest
        tasks served none isOpen (by simp)
      have same : (c.runTask front isOpen).1.desk =
          (QueueOp.call { task := front } none isOpen c).1.desk := by
        simp only [Core.runTask, QueueOp.call]
        split
        · rfl
        · split <;> rfl
      exact same ▸ moves

theorem Core.advanceTask_moves {c : Core} (numbered : c.Numbered)
    {front : PushId} {rest : List PushId} (tasks : c.tasks = front :: rest)
    (served : c.served = c.popped ++ [front]) (isOpen : Bool) :
    c.desk.Moves (c.advanceTask isOpen).1.desk
      (Posted.deskEvent c .advanceTask) := by
  have popNumbered := numbered.popTask tasks
  have popServed : c.popTask.served = c.popTask.popped := by
    simpa [Core.popTask, tasks, Core.served] using served
  have line := desk_line_of_completed numbered tasks served
  have popLine := desk_line_of_served popNumbered popServed
  have popTasks : c.popTask.tasks = rest := by simp [Core.popTask, tasks]
  have popRunning : c.popTask.running = c.running := by
    simp [Core.popTask, tasks]
  have popped : c.popTask.desk = c.desk := by
    refine Desk.ext popRunning ?_ ?_ ?_ ?_
    · simp [Core.desk, Core.popTask, tasks]
    · simp [Core.desk, Core.popTask, tasks]
    · rw [popLine, popTasks, line]
    · simp [Core.desk, Core.popTask, tasks]
  simp only [Core.advanceTask, Posted.deskEvent, popRunning]
  cases running : c.running with
  | true =>
      have moves := processTask_moves popNumbered popServed isOpen
      have goesOn : c.popTask.processDeskEvent = none := by
        simp only [Core.processDeskEvent, popTasks]
        cases rest <;> simp [QueueOp.deskEvent, popRunning, running]
      rw [goesOn, popped] at moves
      simpa using moves
  | false =>
      have shut : c.desk.isOpen = false := running
      have cancelled : c.popTask.cancelAllTasks.1.desk = { c.desk with
          line := []
          left := c.desk.left ++
            c.desk.line.map (fun customer => (customer, .dismissed)) } := by
        rw [← popped, popLine]
        refine Desk.ext ?_ ?_ ?_ ?_ ?_ <;>
          simp [Core.cancelAllTasks, Core.cancelLoop_eq _ _ rfl, Core.desk,
            Posting.leaving, Function.comp_def]
      have moves := Desk.moves_clear shut
      rw [← cancelled] at moves
      simpa using moves

theorem pushOp_moves {s : State} (invariant : s.Invariant) :
    s.core.desk.Moves (pushOp s.core).1.desk (some .arrive) := by
  have fresh : s.core.pushes ∉ s.core.served := by
    intro served
    have known := (invariant.numbered.known s.core.pushes).mp
      (List.mem_append_left _ (invariant.served_prefix.subset served))
    exact Nat.lt_irrefl _ known
  cases running : s.core.running with
  | true =>
      have isOpen : s.core.desk.isOpen = true := running
      rw [pushOp_running running]
      simp only [Desk.Moves, Desk.step, isOpen, if_true, Option.some.injEq]
      refine Desk.ext isOpen.symm rfl rfl ?_ rfl
      have alone : ([s.core.pushes].filter
          (fun task => task ∉ s.core.served)) = [s.core.pushes] := by
        simpa using fresh
      change _ = (s.core.tasks ++ [s.core.pushes]).filter
        (fun task => task ∉ s.core.served)
      rw [List.filter_append, alone]
      rfl
  | false =>
      have isOpen : s.core.desk.isOpen = false := running
      rw [pushOp_stopped running]
      simp only [Desk.Moves, Desk.step, isOpen, Bool.false_eq_true, if_false,
        Option.some.injEq]
      refine Desk.ext isOpen.symm rfl rfl ?_ ?_
      · simp [Core.desk, Core.postHandler, Core.served]
      · simp [Core.desk, Core.postHandler, Posting.leaving]

theorem Operation.resume_desk {operation : Operation}
    (other : operation.queueOp? = none) (isOpen : Bool)
    (ec : Option ErrorCode) (c : Core) :
    (operation.resume isOpen ec c).1.desk = c.desk := by
  cases operation with
  | exchange op => cases other
  | connect caller =>
      cases caller with
      | start handler => rfl
      | queue op => cases other
  | close graceful caller =>
      cases caller with
      | queue op => cases other
      | stop handler =>
          simp only [resume, stopClosed]
          split <;> rfl
  | wait stop cancelled =>
      simp only [resume, stopWaited]
      split <;> rfl

/-- Every error that is saved until a close ends is a failure. -/
theorem reached_saves {s : State} (reached : machine.Reached s) :
    ∀ operation ∈ s.operations, operation.SavesFailure := by
  induction reached with
  | start => simp [machine]
  | @step before after event earlier _ stepped saves =>
      have points := reached_atPoints earlier
      obtain ⟨enabled, rfl⟩ := step_eq stepped
      intro operation member
      rcases State.from_apply member with ⟨old, inState, same⟩ | started
      · have saved := saves old (Event.mem_operations_taken inState)
        rcases same with rfl | rfl
        · exact saved
        · cases old <;> exact saved
      · cases event with
        | push => exact (Core.TracksFailure.pushOp _).closes _ started
        | start =>
            cases operation <;> trivial
        | stop graceful =>
            have closes := List.mem_singleton.mp started
            cases operation <;> cases closes
            trivial
        | post handler isOpen =>
            exact (Core.TracksFailure.run (points.posts handler enabled)
              isOpen _).closes _ started
        | resume resumed ec isOpen =>
            exact (Core.TracksFailure.resume
              (points.operations resumed enabled.1)
              (saves resumed enabled.1) ec isOpen _).closes _ started

theorem Operation.saved {operation : Operation} {op : QueueOp}
    (point : operation.AtPoint) (saves : operation.SavesFailure)
    (resumes : operation.queueOp? = some op) (closed : op.coro = .closed) :
    isFailure op.lastEc = true := by
  cases operation with
  | connect caller =>
      cases caller with
      | start handler => cases resumes
      | queue other =>
          cases resumes
          have connected : op.coro = .connected := point
          simp [connected] at closed
  | exchange other =>
      cases resumes
      have exchanged : op.coro = .exchanged := point
      simp [exchanged] at closed
  | close graceful caller =>
      cases caller with
      | stop handler => cases resumes
      | queue other =>
          cases resumes
          exact saves
  | wait stop cancelled => cases resumes

theorem step_moves {s t : State} {event : Event}
    (reached : machine.Reached s) (stepped : step s event = some t) :
    s.core.desk.Moves t.core.desk (event.deskEvent s.core) := by
  have invariant := reached_invariant reached
  have points := reached_atPoints reached
  obtain ⟨enabled, rfl⟩ := step_eq stepped
  rw [State.apply_core]
  cases event with
  | push => exact pushOp_moves invariant
  | start => rfl
  | stop graceful => rfl
  | post handler isOpen =>
      obtain ⟨sole, _⟩ :=
        State.drivers_erase_post invariant.driven.drivers_length enabled
      cases handler with
      | processTask =>
          cases invariant.driven with
          | idle _ drivers => simp [drivers] at sole
          | live _ _ _ drivers => simp [drivers, Posted.driver] at sole
          | completed _ _ _ drivers =>
              simp [drivers, Posted.driver] at sole
          | unrun front rest tasks drivers served =>
              exact Core.processTask_moves invariant.numbered served isOpen
      | advanceTask =>
          cases invariant.driven with
          | idle _ drivers => simp [drivers] at sole
          | unrun _ _ _ drivers => simp [drivers, Posted.driver] at sole
          | live _ _ _ drivers => simp [drivers, Posted.driver] at sole
          | completed front rest tasks drivers served =>
              exact Core.advanceTask_moves invariant.numbered tasks served
                isOpen
      | retry op =>
          have entry : op.coro = .entry := points.posts _ enabled
          cases invariant.driven with
          | idle _ drivers => simp [drivers] at sole
          | unrun _ _ _ drivers => simp [drivers, Posted.driver] at sole
          | completed _ _ _ drivers =>
              simp [drivers, Posted.driver] at sole
          | live other rest tasks drivers served =>
              have same : other = op := by
                simpa [drivers, Posted.driver] using sole
              subst same
              exact QueueOp.call_moves invariant.numbered tasks served none
                isOpen (by simp [entry])
  | resume operation ec isOpen =>
      cases resumes : operation.queueOp? with
      | none =>
          simp only [Event.outcome, Event.deskEvent, resumes,
            Option.bind_none]
          exact operation.resume_desk resumes isOpen ec s.core
      | some op =>
          have drives := State.mem_drivers enabled.1 resumes
          have saved := operation.saved
            (points.operations operation enabled.1)
            (reached_saves reached operation enabled.1) resumes
          cases invariant.driven with
          | idle _ drivers => simp [drivers] at drives
          | unrun _ _ _ drivers => simp [drivers] at drives
          | completed _ _ _ drivers => simp [drivers] at drives
          | live other rest tasks drivers served =>
              have same : op = other := by simpa [drivers] using drives
              subst same
              simp only [Event.outcome, Event.deskEvent, resumes,
                Option.bind_some, operation.resume_queueOp resumes]
              exact QueueOp.call_moves invariant.numbered tasks served ec
                isOpen saved

theorem serves_desk :
    Machine.Simulation machine (Desk.machine ErrorCode)
      (fun s desk => machine.Reached s ∧ desk = s.core.desk)
      (fun s event => event.deskEvent s.core) where
  start := ⟨.start, rfl⟩
  silent := by
    rintro before event after _ ⟨reached, rfl⟩ stepped silent
    have moves := step_moves reached stepped
    rw [silent] at moves
    exact ⟨reached.step trivial stepped, moves.symm⟩
  visible := by
    rintro before event after _ event' ⟨reached, rfl⟩ stepped visible
    have moves := step_moves reached stepped
    rw [visible] at moves
    exact ⟨_, moves, reached.step trivial stepped, rfl⟩

/-- Every run of a session is a run of a service desk. -/
theorem run_serves {s : State} (events : List Event)
    (executed : machine.run machine.start events = some s) :
    (Desk.machine ErrorCode).run (Desk.machine ErrorCode).start
      (machine.labels (fun before event => event.deskEvent before.core)
        machine.start events) = some s.core.desk := by
  obtain ⟨desk, served, _, rfl⟩ :=
    serves_desk.run ⟨.start, rfl⟩ executed
  exact served

/-- A connect fails while a request waits; the session is started again and
serves the request that was pushed after that. -/
def restartedRun : List Event :=
  [.push, .push, .post .processTask false,
    .resume (.connect (.queue ⟨0, none, .connected, true⟩))
      (some .timedOut) false,
    .push, .post .advanceTask false, .start,
    .resume (.connect (.start 0)) none true, .push, .post .processTask true,
    .resume (.exchange ⟨3, none, .exchanged, true⟩) none true]

theorem serves_of_restartedRun :
    ∃ s, machine.run machine.start restartedRun = some s ∧
      (Desk.machine ErrorCode).run (Desk.machine ErrorCode).start
        [.arrive, .arrive, .fail .timedOut, .arrive, .clear, .reopen, .arrive,
          .serve] = some s.core.desk :=
  ⟨_, rfl, run_serves restartedRun rfl⟩

/-- Callers of a session can rely on what customers of a desk can rely on, and
after a failure it takes an `async_start` before a request succeeds or fails
again. -/
theorem run_orderly {s : State} (events : List Event)
    (executed : machine.run machine.start events = some s) :
    s.core.desk.Orderly ∧ Desk.Restarted
      (machine.labels (fun before event => event.deskEvent before.core)
        machine.start events) := by
  obtain ⟨desk, served, _, rfl⟩ :=
    serves_desk.run ⟨.start, rfl⟩ executed
  exact ⟨Desk.reached_fair (Machine.reached_of_run _ served),
    Desk.restarted_of_run served⟩

theorem orderly_of_restartedRun :
    ∃ s, machine.run machine.start restartedRun = some s ∧
      s.core.desk.left = [(0, .failed .timedOut), (2, .refused),
        (1, .dismissed), (3, .served)] ∧ s.core.desk.Orderly ∧
      @Desk.Restarted ErrorCode
        [.arrive, .arrive, .fail .timedOut, .arrive, .clear, .reopen, .arrive,
          .serve] :=
  ⟨_, rfl, rfl, run_orderly restartedRun rfl⟩

theorem State.Invariant.desk_queued {s : State} (invariant : s.Invariant) :
    s.core.desk.queued = s.core.accepted := by
  have left : (s.core.desk.left.filter Desk.waited).map Prod.fst =
      s.core.served := by
    have kept : ∀ posting : Posting,
        Desk.waited posting.leaving = decide (posting.poster ≠ .refusal) := by
      intro posting
      obtain ⟨push, ec, poster⟩ := posting
      cases ec with
      | none => cases poster <;> rfl
      | some error => cases poster <;> cases error <;> rfl
    simp only [Core.desk, Core.served, List.filter_map, List.map_map]
    congr 1
    refine List.filter_congr ?_
    intro posting _
    exact kept posting
  rw [Desk.queued, left, invariant.numbered.order]
  cases invariant.driven with
  | idle _ _ served =>
      rw [Core.desk_line_of_served invariant.numbered served, served]
  | unrun _ _ _ _ served =>
      rw [Core.desk_line_of_served invariant.numbered served, served]
  | live _ _ _ _ served =>
      rw [Core.desk_line_of_served invariant.numbered served, served]
  | completed front rest tasks _ served =>
      rw [Core.desk_line_of_completed invariant.numbered tasks served, served,
        tasks]
      simp

theorem reached_accepted_sorted {s : State} (reached : machine.Reached s) :
    s.core.accepted.Pairwise (· < ·) := by
  obtain ⟨desk, deskReached, _, rfl⟩ := serves_desk.reached reached
  have sorted := (Desk.reached_fair deskReached).inOrder
  rwa [(reached_invariant reached).desk_queued] at sorted

theorem reached_served_sorted {s : State} (reached : machine.Reached s) :
    s.core.served.Pairwise (· < ·) := by
  have invariant := reached_invariant reached
  exact (reached_accepted_sorted reached).sublist
    invariant.served_prefix.sublist

theorem State.Invariant.posted_perm {s : State} (invariant : s.Invariant) :
    (s.core.posted.map Posting.push).Perm (s.core.served ++ s.core.refused) := by
  have keys : s.core.refusals.map Posting.push = s.core.refused := by
    rw [invariant.numbered.refusals, List.map_map]
    exact List.map_id _
  have parts := (List.filter_append_perm
    (fun posting => posting.poster ≠ .refusal) s.core.posted).map Posting.push
  rw [List.map_append] at parts
  rw [← keys]
  simpa [Core.served, Core.refusals] using parts.symm

theorem State.Invariant.posted_subperm {s : State} (invariant : s.Invariant) :
    (s.core.posted.map Posting.push).Subperm (List.range s.core.pushes) := by
  have all : (s.core.accepted ++ s.core.refused).Perm
      (List.range s.core.pushes) :=
    (List.perm_ext_iff_of_nodup invariant.numbered.nodup
      List.nodup_range).mpr fun push =>
        (invariant.numbered.known push).trans List.mem_range.symm
  have some := invariant.served_prefix.sublist.append_right s.core.refused
  exact invariant.posted_perm.subperm.trans
    (some.subperm.trans all.subperm)

theorem State.Invariant.ran_cases {s : State} (invariant : s.Invariant)
    {push : PushId} (taken : push ∈ s.core.ran) :
    push ∈ s.core.popped ∨ ∃ rest, s.core.tasks = push :: rest := by
  cases invariant.driven with
  | idle _ _ _ ran => exact .inl (ran push taken)
  | unrun _ _ _ _ _ ran => exact .inl (ran push taken)
  | live op rest tasks _ _ ran =>
      refine (ran push taken).imp_right ?_
      rintro rfl
      exact ⟨rest, tasks⟩
  | completed front rest tasks _ _ ran =>
      refine (ran push taken).imp_right ?_
      rintro rfl
      exact ⟨rest, tasks⟩

/-- Once a request was taken up, all requests before it were answered. -/
theorem served_of_taken {s : State} (reached : machine.Reached s)
    {push earlier : PushId} (taken : push ∈ s.core.ran)
    (accepted : earlier ∈ s.core.accepted) (before : earlier < push) :
    earlier ∈ s.core.served := by
  have invariant := reached_invariant reached
  have sorted := reached_accepted_sorted reached
  rw [invariant.numbered.order] at accepted sorted
  have order := List.pairwise_append.mp sorted
  rcases List.mem_append.mp accepted with popped | queued
  · exact invariant.popped_served popped
  · exfalso
    rcases invariant.ran_cases taken with popped | ⟨rest, tasks⟩
    · exact Nat.lt_asymm before (order.2.2 push popped earlier queued)
    · rw [tasks] at queued order
      rcases List.mem_cons.mp queued with same | behind
      · exact Nat.ne_of_lt before same
      · exact Nat.lt_asymm before
          ((List.pairwise_cons.mp order.2.1).1 earlier behind)

theorem desk_line_of_live {s : State} (reached : machine.Reached s)
    {op : QueueOp} (drives : .queueOp op ∈ s.drivers) :
    ∃ rest, s.core.desk.line = op.task :: rest := by
  have invariant := reached_invariant reached
  cases invariant.driven with
  | idle _ drivers => simp [drivers] at drives
  | unrun _ _ _ drivers => simp [drivers] at drives
  | completed _ _ _ drivers => simp [drivers] at drives
  | live other rest tasks drivers served =>
      have same : op = other := by simpa [drivers] using drives
      refine ⟨rest, ?_⟩
      rw [Core.desk_line_of_served invariant.numbered served, tasks, same]

/-- No request was taken up after the one in hand. -/
theorem taken_le {s : State} (reached : machine.Reached s) {op : QueueOp}
    (drives : .queueOp op ∈ s.drivers) {push : PushId}
    (taken : push ∈ s.core.ran) : push ≤ op.task := by
  have invariant := reached_invariant reached
  have sorted := reached_accepted_sorted reached
  have order := List.pairwise_append.mp (invariant.numbered.order ▸ sorted)
  cases invariant.driven with
  | idle _ drivers => simp [drivers] at drives
  | unrun _ _ _ drivers => simp [drivers] at drives
  | completed _ _ _ drivers => simp [drivers] at drives
  | live other rest tasks drivers =>
      have same : op = other := by simpa [drivers] using drives
      rw [same]
      rcases invariant.ran_cases taken with popped | ⟨behind, front⟩
      · refine Nat.le_of_lt (order.2.2 push popped other.task ?_)
        simp [tasks]
      · rw [tasks] at front
        exact Nat.le_of_eq (List.cons.inj front).1.symm

def Core.successes (c : Core) : List PushId :=
  (c.posted.filter (fun posting =>
    posting.ec = none && posting.poster ≠ .refusal)).map Posting.push

theorem Core.desk_satisfied (c : Core) : c.desk.satisfied = c.successes := by
  simp only [Core.desk, Core.successes, Desk.satisfied, List.filter_map,
    List.map_map]
  congr 1
  refine List.filter_congr ?_
  intro posting _
  obtain ⟨push, ec, poster⟩ := posting
  cases ec with
  | none => cases poster <;> rfl
  | some error => cases poster <;> cases error <;> rfl

theorem QueueOp.deskEvent_entry {op : QueueOp} (entry : op.coro = .entry)
    (c : Core) :
    op.deskEvent none c = none ∨ op.deskEvent none c = some .dismiss := by
  simp only [deskEvent, entry]
  split
  · exact .inr rfl
  · exact .inl rfl

theorem Posted.deskEvent_cases {handler : Posted} (point : handler.AtPoint)
    (c : Core) :
    handler.deskEvent c = none ∨ handler.deskEvent c = some .dismiss ∨
      handler.deskEvent c = some .clear := by
  cases handler with
  | processTask =>
      simp only [deskEvent, Core.processDeskEvent]
      split
      · exact .inl rfl
      · rename_i front rest _
        have cases := @QueueOp.deskEvent_entry { task := front } rfl c
        exact cases.imp_right .inl
  | advanceTask =>
      simp only [deskEvent]
      split
      · exact .inl rfl
      · exact .inr (.inr rfl)
  | retry op => exact (QueueOp.deskEvent_entry point c).imp_right .inl

/-- A request is served when its exchange ends well. -/
theorem Event.serves {event : Event} (point : event.AtPoint) {c : Core}
    (serves : event.deskEvent c = some .serve) :
    ∃ op isOpen, event = .resume (.exchange op) none isOpen := by
  cases event with
  | push => cases serves
  | start => cases serves
  | stop graceful => cases serves
  | post handler isOpen =>
      have cases := handler.deskEvent_cases point c
      simp only [deskEvent] at serves
      simp [serves] at cases
  | resume operation ec isOpen =>
      obtain ⟨op, resumes, calls⟩ := Option.bind_eq_some_iff.mp serves
      simp only [QueueOp.deskEvent] at calls
      split at calls
      · cases calls
      · cases operation with
        | wait stop cancelled => cases resumes
        | exchange other =>
            cases resumes
            have exchanged : op.coro = .exchanged := point
            simp only [exchanged] at calls
            cases ec with
            | none => exact ⟨op, isOpen, rfl⟩
            | some error => cases calls
        | connect caller =>
            cases caller with
            | start handler => cases resumes
            | queue other =>
                cases resumes
                have connected : op.coro = .connected := point
                simp [connected] at calls
        | close graceful caller =>
            cases caller with
            | stop handler => cases resumes
            | queue other =>
                cases resumes
                have closed : op.coro = .closed := point
                simp [closed] at calls

theorem Event.deskEvent_exchange {op : QueueOp} {isOpen : Bool} {c : Core}
    (exchanged : op.coro = .exchanged) (running : c.running = true) :
    (Event.resume (.exchange op) none isOpen).deskEvent c = some .serve := by
  simp [deskEvent, Operation.queueOp?, QueueOp.deskEvent, running, exchanged]

/-- A session stops running when it is stopped, or when the operation of its
queue ends. -/
theorem step_shuts {s t : State} {event : Event}
    (reached : machine.Reached s) (stepped : step s event = some t)
    (running : s.core.running = true) (stopped : t.core.running = false) :
    (∃ graceful, event = .stop graceful) ∨
    ∃ operation op ec isOpen, event = .resume operation ec isOpen ∧
      operation.queueOp? = some op := by
  have points := reached_atPoints reached
  have enabled := (step_eq stepped).1
  have shuts := (step_moves reached stepped).shuts running stopped
  cases event with
  | push => simp [Event.deskEvent] at shuts
  | start => simp [Event.deskEvent] at shuts
  | stop graceful => exact .inl ⟨graceful, rfl⟩
  | post handler isOpen =>
      have cases := handler.deskEvent_cases
        (points.posts handler enabled) s.core
      simp only [Event.deskEvent] at shuts
      rcases cases with none | dismiss | clear
      · simp [none] at shuts
      · simp [dismiss] at shuts
      · simp [clear] at shuts
  | resume operation ec isOpen =>
      cases resumes : operation.queueOp? with
      | none => simp [Event.deskEvent, resumes] at shuts
      | some op => exact .inr ⟨operation, op, ec, isOpen, rfl, resumes⟩

theorem Event.outcome_running {event : Event} {c : Core} {effect : Effect}
    (starts : effect ∈ (event.outcome c).2) {next : QueueOp}
    (keeps : effect.queueOp? = some next) :
    (event.outcome c).1.running = true := by
  have called : ∀ (op : QueueOp) ec isOpen (d : Core),
      effect ∈ (op.call ec isOpen d).2 →
      (op.call ec isOpen d).1.running = true := by
    intro op ec isOpen d member
    rcases op.call_cases ec isOpen d with ⟨result, running, ended⟩ |
      ⟨other, later, continued, _, _, running⟩
    · rw [ended, List.mem_singleton] at member
      rw [member] at keeps
      cases keeps
    · rw [continued]
      exact running
  have processed : ∀ isOpen (d : Core), effect ∈ (d.processTask isOpen).2 →
      (d.processTask isOpen).1.running = true := by
    intro isOpen d member
    unfold Core.processTask at member ⊢
    split at member
    · cases member
    · exact called _ _ _ _ member
  cases event with
  | push =>
      cases running : c.running with
      | false => simp [outcome, pushOp_stopped running] at starts
      | true =>
          simp only [outcome, pushOp_running running] at starts ⊢
          exact running
  | start => rfl
  | stop graceful =>
      obtain rfl := List.mem_singleton.mp starts
      cases keeps
  | post handler isOpen =>
      cases handler with
      | processTask => exact processed isOpen c starts
      | retry op => exact called op none isOpen c starts
      | advanceTask =>
          simp only [outcome, Posted.run, Core.advanceTask] at starts ⊢
          split
          case isTrue running =>
            rw [if_pos running] at starts
            exact processed isOpen _ starts
          case isFalse stopped =>
            rw [if_neg stopped, Core.cancelAllTasks, List.mem_singleton]
              at starts
            rw [starts] at keeps
            cases keeps
  | resume operation ec isOpen =>
      cases resumes : operation.queueOp? with
      | none =>
          have undriving :=
            (operation.resume_other resumes isOpen ec c).2 effect starts
          rw [undriving.queueOp?] at keeps
          cases keeps
      | some op =>
          simp only [outcome, operation.resume_queueOp resumes] at starts ⊢
          exact called op ec isOpen c starts

end Fetchpp.Session

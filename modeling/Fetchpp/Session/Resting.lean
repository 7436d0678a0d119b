import Mathlib.Data.List.Perm.Subperm
import Fetchpp.Lib.Potential
import Fetchpp.Session.Effects
import Fetchpp.Session.Handlers
import Fetchpp.Session.Stopping

/-!
# Sessions come to rest

What a session still has to do is bounded: a task is taken up once, goes
through two rounds at most, and its `advance_task` runs once.  So every run
ends unless the caller goes on calling, and a session at rest has called every
handler it was given.
-/

namespace Fetchpp.Session

open Lib

def QueuePoint.rank : QueuePoint → Nat
  | .entry => 4
  | .connected => 3
  | .exchanged => 2
  | .closed => 1

def QueueOp.rank (op : QueueOp) : Nat :=
  op.coro.rank + (if op.firstRound then 4 else 0) + 1

def Posted.rank : Posted → Nat
  | .processTask => 9
  | .advanceTask => 1
  | .retry op => op.rank

def Operation.rank : Operation → Nat
  | .connect (.start _) => 1
  | .connect (.queue op) => op.rank
  | .exchange op => op.rank
  | .close _ (.queue op) => op.rank
  -- a stop may have to wait for the timer after its close
  | .close _ (.stop _) => 2
  | .wait _ _ => 1

def Effect.rank : Effect → Nat
  | .post handler => handler.rank
  | .connect caller => (Operation.connect caller).rank
  | .exchange op => op.rank
  | .close graceful caller => (Operation.close graceful caller).rank
  | .wait _ => 1
  | .cancelTimer => 0

def Event.rank : Event → Nat
  | .post handler _ => handler.rank
  | .resume operation _ _ => operation.rank
  | _ => 0

def State.load (s : State) : Nat :=
  (s.posts.map Posted.rank).sum + (s.operations.map Operation.rank).sum

/-- The tasks behind the front one have not been taken up. -/
def Core.backlog (c : Core) : Nat :=
  9 * c.tasks.tail.length

def State.potential (s : State) : Nat :=
  s.load + s.core.backlog

def Event.isOwn : Event → Bool
  | .push | .start | .stop _ => false
  | _ => true

def Event.pushes : Event → Nat
  | .push => 1
  | _ => 0

def Event.starts : Event → Nat
  | .start => 1
  | _ => 0

def Event.stops : Event → Nat
  | .stop _ => 1
  | _ => 0

def Event.cost (event : Event) : Nat :=
  9 * event.pushes + event.starts + 2 * event.stops

def Event.effort (event : Event) : Nat :=
  if event.isOwn then 1 else 0

theorem Event.own_free (event : Event) (own : event.isOwn = true) :
    event.cost < event.effort := by
  cases event with
  | push => cases own
  | start => cases own
  | stop graceful => cases own
  | post handler isOpen => exact Nat.one_pos
  | resume operation ec isOpen => exact Nat.one_pos

@[simp] theorem Operation.rank_cancelWait (operation : Operation) :
    operation.cancelWait.rank = operation.rank := by
  cases operation <;> rfl

theorem State.load_perform (s : State) (effect : Effect) :
    (s.perform effect).load = s.load + effect.rank := by
  have cancelled : Operation.rank ∘ Operation.cancelWait = Operation.rank :=
    funext Operation.rank_cancelWait
  cases effect <;>
    simp [perform, load, Effect.rank, Operation.rank, cancelled] <;> omega

theorem State.load_apply (s : State) (outcome : Outcome) :
    (s.apply outcome).load = s.load + (outcome.2.map Effect.rank).sum := by
  obtain ⟨core, effects⟩ := outcome
  have added : ∀ t : State, (effects.foldl State.perform t).load =
      t.load + (effects.map Effect.rank).sum := by
    induction effects with
    | nil => exact fun _ => rfl
    | cons effect effects induction =>
        intro t
        rw [List.foldl_cons, induction, load_perform, List.map_cons,
          List.sum_cons, Nat.add_assoc]
  exact added { s with core := core }

theorem State.load_taken {s : State} {event : Event}
    (enabled : event.Enabled s) :
    (event.taken s).load + event.rank = s.load := by
  cases event with
  | push => rfl
  | start => rfl
  | stop graceful => rfl
  | post handler isOpen =>
      have split := ((List.perm_cons_erase enabled).map Posted.rank).sum_nat
      simp only [List.map_cons, List.sum_cons] at split
      simp only [load, Event.taken, Event.rank, split]
      omega
  | resume operation ec isOpen =>
      have split :=
        ((List.perm_cons_erase enabled.1).map Operation.rank).sum_nat
      simp only [List.map_cons, List.sum_cons] at split
      simp only [load, Event.taken, Event.rank, split]
      omega

/-- A handler that takes `rank` off leaves less than that behind. -/
def Core.Pays (c : Core) (rank : Nat) (outcome : Outcome) : Prop :=
  (outcome.2.map Effect.rank).sum + outcome.1.backlog < rank + c.backlog

theorem QueueOp.pays_call (op : QueueOp) (ec : Option ErrorCode)
    (isOpen : Bool) (c : Core) : c.Pays op.rank (op.call ec isOpen c) := by
  have ended : ∀ (result : Option ErrorCode) (running : Bool),
      c.Pays op.rank (op.complete result (c.setRunning running)) := by
    intro result running
    have positive : 0 < op.coro.rank := by
      cases op.coro <;> decide
    simp only [Core.Pays, complete, rank, List.map_cons, List.map_nil,
      List.sum_cons, List.sum_nil, Effect.rank, Posted.rank]
    simp only [Core.backlog, Core.postHandler, Core.setRunning]
    omega
  have kept : c.setRunning c.running = c := rfl
  unfold call
  split
  · exact kept ▸ ended _ c.running
  · cases point : op.coro with
    | entry =>
        dsimp only
        split <;>
          simp [Core.Pays, Effect.rank, Operation.rank, rank, point,
            QueuePoint.rank]
    | connected =>
        cases ec with
        | some error => exact ended _ false
        | none => simp [Core.Pays, Effect.rank, rank, point, QueuePoint.rank]
    | exchanged =>
        cases ec with
        | some error =>
            simp [Core.Pays, Effect.rank, Operation.rank, rank, point,
              QueuePoint.rank]
        | none => exact kept ▸ ended _ c.running
    | closed =>
        dsimp only
        split
        case isTrue first =>
          simp [Core.Pays, Effect.rank, Posted.rank, rank, point,
            QueuePoint.rank, first]
        case isFalse => exact ended _ false

theorem Core.pays_processTask (c : Core) (isOpen : Bool) :
    c.Pays 9 (c.processTask isOpen) := by
  unfold processTask
  split
  · simp [Pays]
  case h_2 front rest tasks =>
    exact QueueOp.pays_call { task := front } none isOpen
      { c with ran := c.ran ++ [front] }

theorem Core.backlog_popTask (c : Core) (occupied : c.popTask.tasks ≠ []) :
    c.popTask.backlog + 9 = c.backlog := by
  cases tasks : c.tasks with
  | nil => simp [popTask, tasks] at occupied
  | cons front rest =>
      cases rest with
      | nil => simp [popTask, tasks] at occupied
      | cons next rest =>
          simp only [popTask, backlog, tasks, List.tail_cons, List.length_cons]
          omega

/-- The front task is popped, and the next one is taken up or all of them are
cancelled. -/
theorem Core.pays_advanceTask (c : Core) (isOpen : Bool) :
    c.Pays 1 (c.advanceTask isOpen) := by
  unfold advanceTask
  dsimp only
  split
  · cases tasks : c.popTask.tasks with
    | nil =>
        simp only [Pays, processTask, tasks, backlog, List.map_nil,
          List.sum_nil, List.tail_nil, List.length_nil]
        omega
    | cons front rest =>
        have popped := c.backlog_popTask (by simp [tasks])
        have processed := c.popTask.pays_processTask isOpen
        simp only [Pays] at processed ⊢
        omega
  · simp only [Pays, cancelAllTasks, cancelLoop_eq _ _ rfl, Effect.rank,
      backlog, List.map_cons, List.map_nil, List.sum_cons, List.sum_nil,
      List.tail_nil, List.length_nil]
    omega

theorem Posted.pays_run (handler : Posted) (isOpen : Bool) (c : Core) :
    c.Pays handler.rank (handler.run isOpen c) := by
  cases handler with
  | processTask => exact c.pays_processTask isOpen
  | advanceTask => exact c.pays_advanceTask isOpen
  | retry op => exact op.pays_call none isOpen c

theorem Operation.pays_resume (operation : Operation) (ec : Option ErrorCode)
    (isOpen : Bool) (c : Core) :
    c.Pays operation.rank (operation.resume isOpen ec c) := by
  have called : ∀ (stop : Nat) (result : Option ErrorCode) (rank : Nat),
      0 < rank → c.Pays rank (callStopHandler stop result c) := by
    intro stop result rank positive
    simpa [Core.Pays, callStopHandler, Core.backlog] using positive
  cases operation with
  | connect caller =>
      cases caller with
      | start handler => simp [Core.Pays, resume, startConnected, rank,
          Core.backlog]
      | queue op => exact op.pays_call ec isOpen c
  | exchange op => exact op.pays_call ec isOpen c
  | close graceful caller =>
      cases caller with
      | queue op => exact op.pays_call ec isOpen c
      | stop stop =>
          simp only [resume, stopClosed]
          split
          · simp [Core.Pays, Effect.rank, rank]
          · exact called stop ec 2 (by decide)
  | wait stop cancelled =>
      simp only [resume, stopWaited]
      split <;> exact called stop _ 1 (by decide)

/-- A call adds what it costs at most, any other event takes something off. -/
theorem Event.pays (event : Event) (c : Core) :
    ((event.outcome c).2.map Effect.rank).sum + (event.outcome c).1.backlog +
        event.effort ≤
      event.rank + c.backlog + event.cost := by
  cases event with
  | push =>
      cases running : c.running with
      | false =>
          simp [outcome, pushOp_stopped running, effort, isOwn, Core.backlog,
            Core.postHandler, rank, cost]
      | true =>
          cases tasks : c.tasks with
          | nil =>
              simp [outcome, pushOp_running running, effort, isOwn, rank, cost,
                pushes, starts, stops, Core.backlog, Core.pushTask, tasks,
                Effect.rank, Posted.rank]
          | cons front rest =>
              simp only [outcome, pushOp_running running, effort, isOwn, rank,
                cost, pushes, starts, stops, Core.backlog, Core.pushTask,
                tasks, reduceCtorEq, if_false, List.map_nil, List.sum_nil,
                List.cons_append, List.tail_cons, List.length_append,
                List.length_singleton]
              omega
  | start =>
      simp [outcome, startOp, effort, isOwn, rank, cost, pushes, starts,
        stops, Core.backlog, Core.setRunning, Effect.rank, Operation.rank,
        Nat.add_comm]
  | stop graceful =>
      simp [outcome, stopOp, effort, isOwn, rank, cost, pushes, starts,
        stops, Core.backlog, Core.setRunning, Effect.rank, Operation.rank,
        Nat.add_comm]
  | post handler isOpen => exact handler.pays_run isOpen c
  | resume operation ec isOpen => exact operation.pays_resume ec isOpen c

theorem potential_pays :
    Machine.Potential machine (fun _ => True) (fun _ => Event.cost)
      Event.effort State.potential where
  kept := fun _ _ => trivial
  pays := by
    intro before event after _ stepped
    obtain ⟨enabled, rfl⟩ := step_eq stepped
    have taken := State.load_taken enabled
    have paid := event.pays before.core
    rw [State.potential, State.load_apply, State.apply_core, State.potential]
    omega

/-- A call of `async_start` or of `async_stop`, by its number. -/
inductive Caller where
  | start (handler : Nat)
  | stop (handler : Nat)
  deriving DecidableEq, Repr

def Caller.start? : Caller → Option Nat
  | .start handler => some handler
  | .stop _ => none

def Caller.stop? : Caller → Option Nat
  | .start _ => none
  | .stop handler => some handler

def Operation.caller? : Operation → Option Caller
  | .connect (.start handler) => some (.start handler)
  | .close _ (.stop handler) => some (.stop handler)
  | .wait stop _ => some (.stop stop)
  | _ => none

def Effect.caller? : Effect → Option Caller
  | .connect (.start handler) => some (.start handler)
  | .close _ (.stop handler) => some (.stop handler)
  | .wait stop => some (.stop stop)
  | _ => none

/-- The calls whose operation an event ends. -/
def Event.callers : Event → List Caller
  | .resume operation _ _ => operation.caller?.toList
  | _ => []

def Core.called (c : Core) : List Caller :=
  c.startCalls.map (fun call => .start call.1) ++
    c.stopCalls.map (fun call => .stop call.1)

def Core.callers (c : Core) : List Caller :=
  (List.range c.starts).map .start ++ (List.range c.stops).map .stop

def State.awaited (s : State) : List Caller :=
  s.operations.filterMap Operation.caller?

@[simp] theorem Operation.caller?_cancelWait (operation : Operation) :
    operation.cancelWait.caller? = operation.caller? := by
  cases operation <;> rfl

theorem State.awaited_perform (s : State) (effect : Effect) :
    (s.perform effect).awaited = s.awaited ++ effect.caller?.toList := by
  have cancelled : Operation.caller? ∘ Operation.cancelWait =
      Operation.caller? := funext Operation.caller?_cancelWait
  cases effect with
  | post handler => simp [perform, awaited, Effect.caller?]
  | exchange op =>
      simp [perform, awaited, Effect.caller?, Operation.caller?]
  | connect caller =>
      cases caller <;>
        simp [perform, awaited, Effect.caller?, Operation.caller?]
  | close graceful caller =>
      cases caller <;>
        simp [perform, awaited, Effect.caller?, Operation.caller?]
  | wait stop =>
      simp [perform, awaited, Effect.caller?, List.filterMap_map, cancelled,
        Operation.caller?]
  | cancelTimer => simp [perform, awaited, Effect.caller?, List.filterMap_map]

theorem State.awaited_apply (s : State) (outcome : Outcome) :
    (s.apply outcome).awaited =
      s.awaited ++ outcome.2.filterMap Effect.caller? := by
  obtain ⟨core, effects⟩ := outcome
  have added : ∀ t : State, (effects.foldl State.perform t).awaited =
      t.awaited ++ effects.filterMap Effect.caller? := by
    induction effects with
    | nil => simp
    | cons effect effects induction =>
        intro t
        rw [List.foldl_cons, induction, awaited_perform, List.append_assoc]
        cases caller : effect.caller? <;> simp [caller]
  exact added { s with core := core }

theorem State.awaited_taken {s : State} {event : Event}
    (enabled : event.Enabled s) :
    s.awaited.Perm (event.callers ++ (event.taken s).awaited) := by
  cases event with
  | push => exact .rfl
  | start => exact .rfl
  | stop graceful => exact .rfl
  | post handler isOpen => exact .rfl
  | resume operation ec isOpen =>
      have split :=
        (List.perm_cons_erase enabled.1).filterMap Operation.caller?
      simp only [awaited, Event.callers, Event.taken]
      refine split.trans (.of_eq ?_)
      cases caller : operation.caller? <;> simp [caller]

/-- A handler that neither calls nor keeps the handler of a start or stop. -/
structure Core.Uncalling (c : Core) (outcome : Outcome) : Prop where
  pushes : outcome.1.pushes = c.pushes
  starts : outcome.1.starts = c.starts
  stops : outcome.1.stops = c.stops
  accepted : outcome.1.accepted = c.accepted
  called : outcome.1.called = c.called
  keeps : outcome.2.filterMap Effect.caller? = []

theorem QueueOp.uncalling_call (op : QueueOp) (ec : Option ErrorCode)
    (isOpen : Bool) (c : Core) : c.Uncalling (op.call ec isOpen c) := by
  rcases op.call_cases ec isOpen c with ⟨result, running, ended⟩ |
    ⟨effect, next, continued, keeps, _⟩
  · rw [ended]
    exact ⟨rfl, rfl, rfl, rfl, rfl, rfl⟩
  · rw [continued]
    refine ⟨rfl, rfl, rfl, rfl, rfl, ?_⟩
    cases effect with
    | post handler => rfl
    | exchange op => rfl
    | connect caller => cases caller <;> simp_all [Effect.queueOp?,
        Effect.caller?]
    | close graceful caller => cases caller <;> simp_all [Effect.queueOp?,
        Effect.caller?]
    | wait stop => simp [Effect.queueOp?] at keeps
    | cancelTimer => simp [Effect.queueOp?] at keeps

theorem Core.uncalling_processTask (c : Core) (isOpen : Bool) :
    c.Uncalling (c.processTask isOpen) := by
  unfold processTask
  split
  · exact ⟨rfl, rfl, rfl, rfl, rfl, rfl⟩
  case h_2 front rest tasks =>
    have run := QueueOp.uncalling_call { task := front } none isOpen
      { c with ran := c.ran ++ [front] }
    exact ⟨run.pushes, run.starts, run.stops, run.accepted, run.called,
      run.keeps⟩

theorem Core.uncalling_advanceTask (c : Core) (isOpen : Bool) :
    c.Uncalling (c.advanceTask isOpen) := by
  have popped : c.Uncalling (c.popTask, []) := by
    unfold popTask
    split <;> exact ⟨rfl, rfl, rfl, rfl, rfl, rfl⟩
  unfold advanceTask
  dsimp only
  split
  · have run := c.popTask.uncalling_processTask isOpen
    exact ⟨run.pushes.trans popped.pushes, run.starts.trans popped.starts,
      run.stops.trans popped.stops, run.accepted.trans popped.accepted,
      run.called.trans popped.called, run.keeps⟩
  · simp only [cancelAllTasks, cancelLoop_eq _ _ rfl]
    exact ⟨popped.pushes, popped.starts, popped.stops, popped.accepted,
      popped.called, rfl⟩

theorem Posted.uncalling_run (handler : Posted) (isOpen : Bool) (c : Core) :
    c.Uncalling (handler.run isOpen c) := by
  cases handler with
  | processTask => exact c.uncalling_processTask isOpen
  | advanceTask => exact c.uncalling_advanceTask isOpen
  | retry op => exact op.uncalling_call none isOpen c

/-- What is called, or kept for later, was waited for or is new. -/
structure Event.CallersKept (event : Event) (c : Core) (outcome : Outcome)
    (fresh : List Caller) : Prop where
  callers : outcome.1.callers.Perm (c.callers ++ fresh)
  called : (outcome.1.called ++ outcome.2.filterMap Effect.caller?).Perm
    (c.called ++ event.callers ++ fresh)

theorem Event.CallersKept.of_same {event : Event} {c : Core}
    {outcome : Outcome} (callers : outcome.1.callers = c.callers)
    (called : outcome.1.called = c.called)
    (keeps : outcome.2.filterMap Effect.caller? = [])
    (none : event.callers = []) : event.CallersKept c outcome [] := by
  constructor
  · rw [callers, List.append_nil]
  · simp only [called, keeps, none, List.append_nil]
    exact .rfl

theorem Core.Uncalling.kept {c : Core} {outcome : Outcome} {event : Event}
    (uncalling : c.Uncalling outcome) (none : event.callers = []) :
    event.CallersKept c outcome [] := by
  refine .of_same ?_ uncalling.called uncalling.keeps none
  simp only [Core.callers, uncalling.starts, uncalling.stops]

theorem Event.outcome_callers (event : Event) (c : Core) :
    ∃ fresh, event.CallersKept c (event.outcome c) fresh := by
  cases event with
  | push =>
      refine ⟨[], ?_⟩
      cases running : c.running with
      | false =>
          simp only [outcome, pushOp_stopped running]
          exact .of_same rfl rfl rfl rfl
      | true =>
          simp only [outcome, pushOp_running running]
          refine .of_same rfl rfl ?_ rfl
          split <;> rfl
  | start =>
      refine ⟨[.start c.starts], ?_, ?_⟩
      · simp only [outcome, startOp, Core.callers, Core.setRunning,
          List.range_succ, List.map_append, List.append_assoc]
        exact (List.perm_append_comm).append_left _
      · simp [outcome, startOp, Core.called, Core.setRunning, Effect.caller?,
          callers]
  | stop graceful =>
      refine ⟨[.stop c.stops], ?_, ?_⟩
      · simp [outcome, stopOp, Core.callers, Core.setRunning, List.range_succ]
      · simp [outcome, stopOp, Core.called, Core.setRunning, Effect.caller?,
          callers]
  | post handler isOpen =>
      exact ⟨[], (handler.uncalling_run isOpen c).kept rfl⟩
  | resume operation ec isOpen =>
      have handler : ∀ stop result,
          ((callStopHandler stop result c).1.called).Perm
            (c.called ++ [.stop stop]) := by
        intro stop result
        simp [callStopHandler, Core.called]
      cases operation with
      | connect caller =>
          cases caller with
          | queue op => exact ⟨[], (op.uncalling_call ec isOpen c).kept rfl⟩
          | start starter =>
              refine ⟨[], by simp [outcome, Operation.resume, startConnected,
                Core.callers], ?_⟩
              simp only [outcome, Operation.resume, startConnected, Core.called,
                callers, Operation.caller?, List.map_append, List.append_assoc,
                List.filterMap_nil, List.append_nil]
              exact (List.perm_append_comm).append_left _
      | exchange op => exact ⟨[], (op.uncalling_call ec isOpen c).kept rfl⟩
      | close graceful caller =>
          cases caller with
          | queue op => exact ⟨[], (op.uncalling_call ec isOpen c).kept rfl⟩
          | stop stop =>
              simp only [outcome, Operation.resume, stopClosed]
              split
              · exact ⟨[], by simp, by simp [callers, Operation.caller?,
                  Effect.caller?]⟩
              · refine ⟨[], by simp [callStopHandler, Core.callers], ?_⟩
                simpa [callers, Operation.caller?, callStopHandler] using
                  handler stop ec
      | wait stop cancelled =>
          simp only [outcome, Operation.resume, stopWaited]
          split <;>
            exact ⟨[], by simp [callStopHandler, Core.callers],
              by simpa [callers, Operation.caller?, callStopHandler] using
                handler stop _⟩

/-- Every handler of a start or a stop is called once, or waited for once. -/
theorem reached_callers {s : State} (reached : machine.Reached s) :
    (s.core.called ++ s.awaited).Perm s.core.callers := by
  induction reached with
  | start => exact .rfl
  | @step before after event _ _ stepped kept =>
      obtain ⟨enabled, rfl⟩ := step_eq stepped
      obtain ⟨fresh, callers, called⟩ := event.outcome_callers before.core
      have taken := State.awaited_taken enabled
      rw [State.apply_core, State.awaited_apply]
      rw [List.perm_iff_count] at kept callers called taken ⊢
      intro caller
      have keptOnce := kept caller
      have callersOnce := callers caller
      have calledOnce := called caller
      have takenOnce := taken caller
      simp only [List.count_append]
        at keptOnce callersOnce calledOnce takenOnce ⊢
      omega

theorem reached_stopCalls_nodup {s : State} (reached : machine.Reached s) :
    (s.core.stopCalls.map Prod.fst).Nodup := by
  have stops := (reached_callers reached).filterMap Caller.stop?
  have all : (s.core.callers.filterMap Caller.stop?) =
      List.range s.core.stops := by
    simp [Core.callers, Caller.stop?, List.filterMap_map, Function.comp_def]
  have called : s.core.called.filterMap Caller.stop? =
      s.core.stopCalls.map Prod.fst := by
    simp [Core.called, Caller.stop?, List.filterMap_map, Function.comp_def]
  rw [List.filterMap_append, all, called] at stops
  exact (List.nodup_append.mp (stops.nodup_iff.mpr List.nodup_range)).1

theorem Operation.resume_stopCalls (operation : Operation)
    (ec : Option ErrorCode) (isOpen : Bool) (c : Core) :
    c.stopCalls <+: (operation.resume isOpen ec c).1.stopCalls := by
  have called : ∀ (stop : Nat) (result : Option ErrorCode),
      c.stopCalls <+: (callStopHandler stop result c).1.stopCalls :=
    fun stop result => List.prefix_append _ _
  have driven : ∀ op : QueueOp,
      c.stopCalls <+: (op.call ec isOpen c).1.stopCalls := fun op => by
    have kept := (Core.KeepsStops.call op ec isOpen c).stopCalls
    exact kept ▸ List.prefix_rfl
  cases operation with
  | connect caller =>
      cases caller with
      | start handler => exact List.prefix_rfl
      | queue op => exact driven op
  | exchange op => exact driven op
  | close graceful caller =>
      cases caller with
      | queue op => exact driven op
      | stop stop =>
          simp only [resume, stopClosed]
          split
          · exact List.prefix_rfl
          · exact called stop ec
  | wait stop cancelled =>
      simp only [resume, stopWaited]
      split <;> exact called stop _

theorem step_stopCalls {s t : State} {event : Event}
    (stepped : step s event = some t) :
    s.core.stopCalls <+: t.core.stopCalls := by
  obtain ⟨_, rfl⟩ := step_eq stepped
  rw [State.apply_core]
  cases event with
  | push =>
      simp only [Event.outcome, (Core.KeepsStops.pushOp s.core).stopCalls]
      exact List.prefix_rfl
  | start => exact List.prefix_rfl
  | stop graceful => exact List.prefix_rfl
  | post handler isOpen =>
      simp only [Event.outcome,
        (Core.KeepsStops.post handler isOpen s.core).stopCalls]
      exact List.prefix_rfl
  | resume operation ec isOpen =>
      exact operation.resume_stopCalls ec isOpen s.core

def Core.spent (c : Core) : Nat :=
  9 * c.pushes + c.starts + 2 * c.stops

/-- What an event adds to the numbers of calls. -/
structure Event.Counts (event : Event) (c d : Core) : Prop where
  pushes : d.pushes = c.pushes + event.pushes
  starts : d.starts = c.starts + event.starts
  stops : d.stops = c.stops + event.stops

theorem Event.outcome_counts (event : Event) (c : Core) :
    event.Counts c (event.outcome c).1 := by
  have quiet : ∀ {operation : Operation} {ec : Option ErrorCode}
      {isOpen : Bool} {outcome : Outcome}, c.Uncalling outcome →
      (Event.resume operation ec isOpen).Counts c outcome.1 :=
    fun uncalling => ⟨uncalling.pushes, uncalling.starts, uncalling.stops⟩
  cases event with
  | push =>
      cases running : c.running with
      | false =>
          rw [outcome, pushOp_stopped running]
          exact ⟨rfl, rfl, rfl⟩
      | true =>
          rw [outcome, pushOp_running running]
          exact ⟨rfl, rfl, rfl⟩
  | start => exact ⟨rfl, rfl, rfl⟩
  | stop graceful => exact ⟨rfl, rfl, rfl⟩
  | post handler isOpen =>
      have uncalling := handler.uncalling_run isOpen c
      exact ⟨uncalling.pushes, uncalling.starts, uncalling.stops⟩
  | resume operation ec isOpen =>
      cases operation with
      | connect caller =>
          cases caller with
          | start starter => exact ⟨rfl, rfl, rfl⟩
          | queue op => exact quiet (op.uncalling_call ec isOpen c)
      | exchange op => exact quiet (op.uncalling_call ec isOpen c)
      | close graceful caller =>
          cases caller with
          | queue op => exact quiet (op.uncalling_call ec isOpen c)
          | stop stop =>
              simp only [outcome, Operation.resume, stopClosed]
              split <;> exact ⟨rfl, rfl, rfl⟩
      | wait stop cancelled =>
          simp only [outcome, Operation.resume, stopWaited]
          split <;> exact ⟨rfl, rfl, rfl⟩

theorem step_counts {s t : State} {event : Event}
    (stepped : step s event = some t) : event.Counts s.core t.core := by
  obtain ⟨_, rfl⟩ := step_eq stepped
  rw [State.apply_core]
  exact event.outcome_counts s.core

theorem step_accepted {s t : State} {event : Event}
    (stepped : step s event = some t)
    (refuses : event = .push → s.core.running = false) :
    t.core.accepted = s.core.accepted := by
  obtain ⟨_, rfl⟩ := step_eq stepped
  rw [State.apply_core]
  cases event with
  | push =>
      rw [Event.outcome, pushOp_stopped (refuses rfl)]
      rfl
  | start => rfl
  | stop graceful => rfl
  | post handler isOpen => exact (handler.uncalling_run isOpen s.core).accepted
  | resume operation ec isOpen =>
      cases resumes : operation.queueOp? with
      | some op =>
          rw [Event.outcome, operation.resume_queueOp resumes]
          exact (op.uncalling_call ec isOpen s.core).accepted
      | none =>
          exact (operation.resume_other resumes isOpen ec s.core).1.accepted

theorem reached_potential {s : State} (reached : machine.Reached s) :
    s.potential ≤ s.core.spent := by
  induction reached with
  | start => exact Nat.le_refl 0
  | step _ _ stepped within =>
      have paid := potential_pays.pays trivial stepped
      have counts := step_counts stepped
      rw [Core.spent, counts.pushes, counts.starts, counts.stops]
      simp only [Core.spent, Event.cost] at within paid
      omega

theorem atRest_iff {s : State} :
    machine.AtRest Event.isOwn s ↔ s.posts = [] ∧ s.operations = [] := by
  constructor
  · intro rests
    constructor
    · refine List.eq_nil_iff_forall_not_mem.mpr fun handler member => ?_
      have disabled := rests (.post handler true) rfl
      simp [machine, step, member] at disabled
    · refine List.eq_nil_iff_forall_not_mem.mpr fun operation member => ?_
      have disabled := rests (.resume operation none true) rfl
      have reports : operation.mayReport none = true := by
        cases operation <;> rfl
      simp [machine, step, member, reports] at disabled
  · rintro ⟨posts, operations⟩ event own
    cases event with
    | push => cases own
    | start => cases own
    | stop graceful => cases own
    | post handler isOpen => simp [machine, step, posts]
    | resume operation ec isOpen => simp [machine, step, operations]

/-- Nothing is left, and every handler was called once. -/
structure State.Settled (s : State) : Prop where
  tasks : s.core.tasks = []
  pushes : ∀ push, push < s.core.pushes → (s.core.postsOf push).length = 1
  starts : (s.core.startCalls.map Prod.fst).Perm (List.range s.core.starts)
  stops : (s.core.stopCalls.map Prod.fst).Perm (List.range s.core.stops)

theorem settled_of_rest {s : State} (reached : machine.Reached s)
    (rests : machine.AtRest Event.isOwn s) : s.Settled := by
  obtain ⟨posts, operations⟩ := atRest_iff.mp rests
  have invariant := reached_invariant reached
  have undriven : s.drivers = [] := by
    simp [State.drivers, State.liveOps, posts, operations]
  have tasks : s.core.tasks = [] := by
    cases invariant.driven with
    | idle tasks => exact tasks
    | unrun _ _ _ drivers => simp [undriven] at drivers
    | live _ _ _ drivers => simp [undriven] at drivers
    | completed _ _ _ drivers => simp [undriven] at drivers
  have callers := reached_callers reached
  simp only [State.awaited, operations, List.filterMap_nil, List.append_nil,
    Core.called, Core.callers] at callers
  refine ⟨tasks, ?_, ?_, ?_⟩
  · intro push known
    obtain ⟨situation, found⟩ := invariant.exists_situation known
    have allowed := invariant.situation_posts found
    cases situation with
    | refused =>
        have one : s.core.postsOf push = _ := allowed
        simp [one]
    | waiting => simp [Core.InSituation, tasks] at found
    | completed => simp [Core.InSituation, tasks] at found
    | popped =>
        obtain ⟨ec, poster, one, _⟩ := allowed
        simp [one]
  · have starts := callers.filterMap Caller.start?
    simpa [Caller.start?, List.filterMap_map, Function.comp_def] using starts
  · have stops := callers.filterMap Caller.stop?
    simpa [Caller.stop?, List.filterMap_map, Function.comp_def] using stops

theorem State.Settled.posted {s : State} (settled : s.Settled)
    (known : (s.core.posted.map Posting.push).Subperm
      (List.range s.core.pushes)) :
    (s.core.posted.map Posting.push).Perm (List.range s.core.pushes) := by
  refine known.antisymm (List.subperm_of_subset List.nodup_range ?_)
  intro push member
  have once := settled.pushes push (List.mem_range.mp member)
  obtain ⟨posting, inPosts⟩ : ∃ posting, posting ∈ s.core.postsOf push :=
    List.exists_mem_of_length_pos (by omega)
  obtain ⟨posted, same⟩ := List.mem_filter.mp inPosts
  exact List.mem_map.mpr ⟨posting, posted, of_decide_eq_true same⟩

/-- What becomes of a session that is not called any more. -/
structure State.Settles (s : State) : Prop where
  /-- it can always go on until it rests -/
  rests : ∃ later final, (∀ event ∈ later, event.isOwn = true) ∧
    machine.run s later = some final ∧ machine.AtRest Event.isOwn final
  /-- it never goes on for longer than this -/
  bounded : ∀ later final, (∀ event ∈ later, event.isOwn = true) →
    machine.run s later = some final →
    later.length ≤ 9 * s.core.pushes + s.core.starts + 2 * s.core.stops
  /-- when it rests, every handler has been called -/
  settled : ∀ later final, machine.run s later = some final →
    machine.AtRest Event.isOwn final → final.Settled

/-- However the caller and the transport have behaved, a session comes to rest
once it is not called any more, with every handler called once. -/
theorem reached_settles {s : State} (reached : machine.Reached s) :
    s.Settles where
  rests := potential_pays.exists_rest (fun _ => Event.own_free) trivial
  bounded := by
    intro later final own executed
    have length :=
      potential_pays.length_le (fun _ => Event.own_free) trivial own executed
    have within := reached_potential reached
    rw [Core.spent] at within
    omega
  settled := fun _ _ executed =>
    settled_of_rest (reached.append_run executed)

theorem settles_of_stoppedRun :
    ∃ s, machine.run machine.start stoppedRun = some s ∧
      s.posts = [] ∧ s.operations = [.close .yes (.stop 0)] ∧ s.Settles :=
  ⟨_, rfl, rfl, rfl,
    reached_settles (Machine.reached_of_run stoppedRun rfl)⟩

end Fetchpp.Session

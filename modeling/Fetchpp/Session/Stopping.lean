import Fetchpp.Session.Drivers

/-!
# Stopping a session

Every `stop_op` that finds tasks left waits on the one timer of the session
and reads the cancellation of that wait as the news that `cancel_all_tasks` is
done.  Arming the timer for another stop cancels the wait as well.  As long as
no stop arms the timer under another one, a handler that is called without an
error finds a stopped session whose queue is empty.
-/

namespace Fetchpp.Session

/-- No `async_start` once `async_stop` has been called. -/
def Event.NoRestart (s : State) : Event → Prop
  | .start => s.core.stops = 0
  | _ => True

/-- A wait for the timer that has not been cancelled. -/
def Operation.pendingWait : Operation → Bool
  | .wait _ false => true
  | _ => false

/-- A `stop_op` that is about to arm the timer finds no other one waiting. -/
def Event.TimerFree (s : State) : Event → Prop
  | .resume (.close _ (.stop _)) _ _ =>
      s.core.hasTasks = true →
        ∀ operation ∈ s.operations, operation.pendingWait = false
  | _ => True

instance (s : State) : (event : Event) → Decidable (event.NoRestart s)
  | .start => inferInstanceAs (Decidable (s.core.stops = 0))
  | .push | .stop _ | .post _ _ | .resume _ _ _ =>
      inferInstanceAs (Decidable True)

instance (s : State) : (event : Event) → Decidable (event.TimerFree s)
  | .resume (.close _ (.stop _)) _ _ =>
      inferInstanceAs (Decidable (s.core.hasTasks = true →
        ∀ operation ∈ s.operations, operation.pendingWait = false))
  | .push | .start | .stop _ | .post _ _ | .resume (.connect _) _ _
  | .resume (.exchange _) _ _ | .resume (.close _ (.queue _)) _ _
  | .resume (.wait _ _) _ _ => inferInstanceAs (Decidable True)

/-- The handlers of `async_stop` that were called without an error were called
on a stopped session with no task left. -/
def State.StopsFinished (s : State) : Prop :=
  ∀ stop, (stop, none) ∈ s.core.stopCalls →
    s.core.running = false ∧ s.core.tasks = []

/-- What a handler that is no part of a `start_op` or a `stop_op` does to the
members that stopping depends on. -/
structure Core.KeepsStops (c : Core) (outcome : Outcome) : Prop where
  stops : outcome.1.stops = c.stops
  stopCalls : outcome.1.stopCalls = c.stopCalls
  stopped : c.running = false → outcome.1.running = false
  drained : c.running = false → c.tasks = [] → outcome.1.tasks = []
  closes : ∀ graceful stop, .close graceful (.stop stop) ∉ outcome.2
  waits : ∀ stop, .wait stop ∉ outcome.2
  cancels : .cancelTimer ∈ outcome.2 → outcome.1.tasks = []

namespace Core.KeepsStops

theorem nothing (c : Core) : c.KeepsStops (c, []) where
  stops := rfl
  stopCalls := rfl
  stopped := id
  drained := fun _ => id
  closes := by simp
  waits := by simp
  cancels := by simp

theorem call (op : QueueOp) (ec : Option ErrorCode) (isOpen : Bool)
    (c : Core) : c.KeepsStops (op.call ec isOpen c) := by
  cases running : c.running with
  | false =>
      have aborted : op.call ec isOpen c =
          op.complete (some .operationAborted) c := by
        simp [QueueOp.call, running]
      rw [aborted]
      exact
        { stops := rfl
          stopCalls := rfl
          stopped := id
          drained := fun _ => id
          closes := by simp [QueueOp.complete]
          waits := by simp [QueueOp.complete]
          cancels := by simp [QueueOp.complete] }
  | true =>
      rcases op.call_cases ec isOpen c with ⟨result, after, ended⟩ |
        ⟨effect, next, continued, keeps, _, _⟩
      · rw [ended]
        exact
          { stops := rfl
            stopCalls := rfl
            stopped := fun stopped => by simp [running] at stopped
            drained := fun _ => id
            closes := by simp
            waits := by simp
            cancels := by simp }
      · rw [continued]
        have driving : effect ≠ .cancelTimer ∧ (∀ stop, effect ≠ .wait stop) ∧
            ∀ graceful stop, effect ≠ .close graceful (.stop stop) := by
          refine ⟨?_, ?_, ?_⟩
          · rintro rfl
            simp [Effect.queueOp?] at keeps
          · rintro stop rfl
            simp [Effect.queueOp?] at keeps
          · rintro graceful stop rfl
            simp [Effect.queueOp?] at keeps
        obtain ⟨notCancel, notWait, notClose⟩ := driving
        exact
          { stops := rfl
            stopCalls := rfl
            stopped := id
            drained := fun _ => id
            closes := fun graceful stop member =>
              notClose graceful stop (List.mem_singleton.mp member).symm
            waits := fun stop member =>
              notWait stop (List.mem_singleton.mp member).symm
            cancels := fun member =>
              (notCancel (List.mem_singleton.mp member).symm).elim }

theorem runTask (task : PushId) (isOpen : Bool) (c : Core) :
    c.KeepsStops (c.runTask task isOpen) := by
  have called := call { task := task } none isOpen
    { c with ran := c.ran ++ [task] }
  exact
    { stops := called.stops
      stopCalls := called.stopCalls
      stopped := called.stopped
      drained := called.drained
      closes := called.closes
      waits := called.waits
      cancels := called.cancels }

theorem processTask (isOpen : Bool) (c : Core) :
    c.KeepsStops (c.processTask isOpen) := by
  cases tasks : c.tasks with
  | nil =>
      have idle : c.processTask isOpen = (c, []) := by
        simp [Core.processTask, tasks]
      rw [idle]
      exact nothing c
  | cons front rest =>
      have runs : c.processTask isOpen = c.runTask front isOpen := by
        simp [Core.processTask, tasks]
      rw [runs]
      exact runTask front isOpen c

theorem ofPopTask {c : Core} {outcome : Outcome}
    (keeps : c.popTask.KeepsStops outcome) : c.KeepsStops outcome := by
  have popped : c.popTask.stops = c.stops ∧
      c.popTask.stopCalls = c.stopCalls ∧ c.popTask.running = c.running ∧
      (c.tasks = [] → c.popTask.tasks = []) := by
    unfold Core.popTask
    split
    case h_1 empty => exact ⟨rfl, rfl, rfl, id⟩
    case h_2 front rest queue =>
      exact ⟨rfl, rfl, rfl, fun empty => by simp [queue] at empty⟩
  obtain ⟨stops, stopCalls, running, tasks⟩ := popped
  exact
    { stops := keeps.stops.trans stops
      stopCalls := keeps.stopCalls.trans stopCalls
      stopped := fun stopped => keeps.stopped (running.trans stopped)
      drained := fun stopped empty =>
        keeps.drained (running.trans stopped) (tasks empty)
      closes := keeps.closes
      waits := keeps.waits
      cancels := keeps.cancels }

theorem cancelAllTasks (c : Core) : c.KeepsStops c.cancelAllTasks := by
  rw [Core.cancelAllTasks, Core.cancelLoop_eq _ _ rfl]
  exact
    { stops := rfl
      stopCalls := rfl
      stopped := id
      drained := fun _ _ => rfl
      closes := by simp
      waits := by simp
      cancels := fun _ => rfl }

theorem advanceTask (isOpen : Bool) (c : Core) :
    c.KeepsStops (c.advanceTask isOpen) := by
  apply ofPopTask
  unfold Core.advanceTask
  dsimp only
  split
  · exact processTask isOpen c.popTask
  · exact cancelAllTasks c.popTask

theorem post (handler : Posted) (isOpen : Bool) (c : Core) :
    c.KeepsStops (handler.run isOpen c) := by
  cases handler with
  | processTask => exact processTask isOpen c
  | advanceTask => exact advanceTask isOpen c
  | retry op => exact call op none isOpen c

theorem pushOp (c : Core) : c.KeepsStops (Session.pushOp c) := by
  cases running : c.running with
  | false =>
      rw [pushOp_stopped running]
      exact
        { stops := rfl
          stopCalls := rfl
          stopped := fun _ => running
          drained := fun _ => id
          closes := by simp
          waits := by simp
          cancels := by simp }
  | true =>
      rw [pushOp_running running]
      exact
        { stops := rfl
          stopCalls := rfl
          stopped := fun stopped => by simp [running] at stopped
          drained := fun stopped => by simp [running] at stopped
          closes := by
            intro graceful stop
            dsimp only
            split <;> simp
          waits := by
            intro stop
            dsimp only
            split <;> simp
          cancels := by
            dsimp only
            split <;> simp }

theorem connected (handler : Nat) (ec : Option ErrorCode) (c : Core) :
    c.KeepsStops (startConnected handler ec c) where
  stops := rfl
  stopCalls := rfl
  stopped := id
  drained := fun _ => id
  closes := by simp [startConnected]
  waits := by simp [startConnected]
  cancels := by simp [startConnected]

end Core.KeepsStops

theorem Operation.resume_stopped (operation : Operation)
    (ec : Option ErrorCode) (isOpen : Bool) {c : Core}
    (stopped : c.running = false) :
    (operation.resume isOpen ec c).1.running = false := by
  cases operation with
  | connect caller =>
      cases caller with
      | start handler => exact stopped
      | queue op => exact (Core.KeepsStops.call op ec isOpen c).stopped stopped
  | exchange op => exact (Core.KeepsStops.call op ec isOpen c).stopped stopped
  | close graceful caller =>
      cases caller with
      | queue op => exact (Core.KeepsStops.call op ec isOpen c).stopped stopped
      | stop stop =>
          simp only [Operation.resume, stopClosed]
          split <;> exact stopped
  | wait stop cancelled =>
      simp only [Operation.resume, stopWaited]
      split <;> exact stopped

/-- Only `start_op` makes a stopped session run again. -/
theorem State.step_stopped {s t : State} {event : Event}
    (stepped : step s event = some t) (notStart : event ≠ .start)
    (stopped : s.core.running = false) : t.core.running = false := by
  cases event with
  | push =>
      cases stepped
      rw [State.apply_core]
      exact (Core.KeepsStops.pushOp s.core).stopped stopped
  | start => exact (notStart rfl).elim
  | stop graceful =>
      cases stepped
      rw [State.apply_core]
      rfl
  | post handler isOpen =>
      simp only [step] at stepped
      split at stepped
      case isTrue =>
        cases stepped
        rw [State.apply_core]
        exact (Core.KeepsStops.post handler isOpen s.core).stopped stopped
      case isFalse => cases stepped
  | resume operation ec isOpen =>
      simp only [step] at stepped
      split at stepped
      case isTrue =>
        cases stepped
        rw [State.apply_core]
        exact operation.resume_stopped ec isOpen stopped
      case isFalse => cases stepped

structure State.Stopping (s : State) : Prop where
  stopped : 0 < s.core.stops → s.core.running = false
  closing : ∀ graceful stop, .close graceful (.stop stop) ∈ s.operations →
    0 < s.core.stops
  waiting : ∀ stop cancelled, .wait stop cancelled ∈ s.operations →
    0 < s.core.stops
  /-- a cancelled wait is the news that no task is left -/
  cancelled : ∀ stop, .wait stop true ∈ s.operations → s.core.tasks = []
  called : ∀ stop, (stop, none) ∈ s.core.stopCalls →
    0 < s.core.stops ∧ s.core.tasks = []

namespace State

theorem mem_close_perform {s : State} {effect : Effect}
    {graceful : GracefulShutdown} {stop : Nat}
    (member : .close graceful (.stop stop) ∈ (s.perform effect).operations) :
    .close graceful (.stop stop) ∈ s.operations ∨
      effect = .close graceful (.stop stop) := by
  have uncancelled : .close graceful (.stop stop) ∈
      s.operations.map Operation.cancelWait →
      .close graceful (.stop stop) ∈ s.operations := by
    intro mapped
    obtain ⟨earlier, inState, equal⟩ := List.mem_map.mp mapped
    cases earlier with
    | wait other flag => simp [Operation.cancelWait] at equal
    | connect caller => simp [Operation.cancelWait] at equal
    | exchange op => simp [Operation.cancelWait] at equal
    | close _ _ => exact equal ▸ inState
  cases effect with
  | post handler => exact .inl member
  | connect caller => exact .inl (by simpa [perform] using member)
  | exchange op => exact .inl (by simpa [perform] using member)
  | close graceful' caller =>
      rcases List.mem_append.mp member with earlier | single
      · exact .inl earlier
      · have same := List.mem_singleton.mp single
        cases same
        exact .inr rfl
  | wait other =>
      rcases List.mem_append.mp member with mapped | single
      · exact .inl (uncancelled mapped)
      · simp at single
  | cancelTimer => exact .inl (uncancelled member)

theorem mem_wait_perform {s : State} {effect : Effect} {stop : Nat}
    {cancelled : Bool}
    (member : .wait stop cancelled ∈ (s.perform effect).operations) :
    .wait stop cancelled ∈ s.operations ∨
      (effect = .wait stop ∧ cancelled = false) ∨
      ((∃ flag, .wait stop flag ∈ s.operations) ∧
        (effect = .cancelTimer ∨ ∃ other, effect = .wait other)) := by
  have source : .wait stop cancelled ∈
      s.operations.map Operation.cancelWait →
      ∃ flag, .wait stop flag ∈ s.operations := by
    intro mapped
    obtain ⟨earlier, inState, equal⟩ := List.mem_map.mp mapped
    cases earlier with
    | wait other flag =>
        simp only [Operation.cancelWait, Operation.wait.injEq] at equal
        exact ⟨flag, equal.1 ▸ inState⟩
    | connect caller => simp [Operation.cancelWait] at equal
    | exchange op => simp [Operation.cancelWait] at equal
    | close _ _ => simp [Operation.cancelWait] at equal
  cases effect with
  | post handler => exact .inl member
  | connect caller => exact .inl (by simpa [perform] using member)
  | exchange op => exact .inl (by simpa [perform] using member)
  | close graceful caller => exact .inl (by simpa [perform] using member)
  | wait other =>
      rcases List.mem_append.mp member with mapped | single
      · exact .inr (.inr ⟨source mapped, .inr ⟨other, rfl⟩⟩)
      · cases List.mem_singleton.mp single
        exact .inr (.inl ⟨rfl, rfl⟩)
  | cancelTimer => exact .inr (.inr ⟨source member, .inl rfl⟩)

namespace Stopping

theorem erase {s : State} (stopping : s.Stopping) (operation : Operation) :
    ({ s with operations := s.operations.erase operation }
      : State).Stopping where
  stopped := stopping.stopped
  closing := fun graceful stop member =>
    stopping.closing graceful stop (List.mem_of_mem_erase member)
  waiting := fun stop flag member =>
    stopping.waiting stop flag (List.mem_of_mem_erase member)
  cancelled := fun stop member =>
    stopping.cancelled stop (List.mem_of_mem_erase member)
  called := stopping.called

theorem posts {s : State} (stopping : s.Stopping) (posts : List Posted) :
    ({ s with posts := posts } : State).Stopping where
  stopped := stopping.stopped
  closing := stopping.closing
  waiting := stopping.waiting
  cancelled := stopping.cancelled
  called := stopping.called

theorem perform {s : State} (stopping : s.Stopping) {effect : Effect}
    (notClose : ∀ graceful stop, effect ≠ .close graceful (.stop stop))
    (notWait : ∀ stop, effect ≠ .wait stop)
    (cancels : effect = .cancelTimer → s.core.tasks = []) :
    (s.perform effect).Stopping where
  stopped := by
    rw [perform_core]
    exact stopping.stopped
  closing := by
    intro graceful stop member
    rw [perform_core]
    rcases mem_close_perform member with earlier | same
    · exact stopping.closing graceful stop earlier
    · exact (notClose graceful stop same).elim
  waiting := by
    intro stop flag member
    rw [perform_core]
    rcases mem_wait_perform member with
      earlier | ⟨same, _⟩ | ⟨⟨earlierFlag, earlier⟩, _⟩
    · exact stopping.waiting stop flag earlier
    · exact (notWait stop same).elim
    · exact stopping.waiting stop earlierFlag earlier
  cancelled := by
    intro stop member
    rw [perform_core]
    rcases mem_wait_perform member with
      earlier | ⟨same, _⟩ | ⟨_, cancel | ⟨other, same⟩⟩
    · exact stopping.cancelled stop earlier
    · exact (notWait stop same).elim
    · exact cancels cancel
    · exact (notWait other same).elim
  called := by
    rw [perform_core]
    exact stopping.called

theorem keeps {s : State} (stopping : s.Stopping) {outcome : Outcome}
    (keeps : s.core.KeepsStops outcome) : (s.apply outcome).Stopping := by
  obtain ⟨core, effects⟩ := outcome
  have empty : 0 < s.core.stops → s.core.tasks = [] → core.tasks = [] :=
    fun some queue => keeps.drained (stopping.stopped some) queue
  have replaced : ({ s with core := core } : State).Stopping :=
    { stopped := fun some =>
        keeps.stopped (stopping.stopped (keeps.stops ▸ some))
      closing := fun graceful stop member =>
        keeps.stops.symm ▸ stopping.closing graceful stop member
      waiting := fun stop flag member =>
        keeps.stops.symm ▸ stopping.waiting stop flag member
      cancelled := fun stop member =>
        empty (stopping.waiting stop true member)
          (stopping.cancelled stop member)
      called := by
        intro stop member
        rw [show core.stopCalls = s.core.stopCalls from keeps.stopCalls]
          at member
        obtain ⟨some, queue⟩ := stopping.called stop member
        exact ⟨keeps.stops.symm ▸ some, empty some queue⟩ }
  have performed : ∀ (rest : List Effect) (t : State), t.Stopping →
      t.core = core → (∀ effect ∈ rest, effect ∈ effects) →
      (rest.foldl State.perform t).Stopping := by
    intro rest
    induction rest with
    | nil => exact fun t stopping' _ _ => stopping'
    | cons effect rest induction =>
        intro t stopping' same within
        have inEffects := within effect List.mem_cons_self
        apply induction
        · refine stopping'.perform ?_ ?_ ?_
          · rintro graceful stop rfl
            exact keeps.closes graceful stop inEffects
          · rintro stop rfl
            exact keeps.waits stop inEffects
          · rintro rfl
            rw [same]
            exact keeps.cancels inEffects
        · rw [perform_core, same]
        · exact fun later member =>
            within later (List.mem_cons_of_mem _ member)
  exact performed effects _ replaced rfl (fun _ => id)

theorem start {s : State} (stopping : s.Stopping) (none : s.core.stops = 0) :
    (s.apply (startOp s.core)).Stopping := by
  have replaced : ({ s with core := (startOp s.core).1 } : State).Stopping :=
    { stopped := fun some => by
        simp [startOp, Core.setRunning, none] at some
      closing := stopping.closing
      waiting := stopping.waiting
      cancelled := stopping.cancelled
      called := stopping.called }
  exact @perform _ replaced (.connect (.start s.core.starts)) (by simp)
    (by simp) (by simp)

theorem stop {s : State} (stopping : s.Stopping)
    (graceful : GracefulShutdown) :
    (s.apply (stopOp graceful s.core)).Stopping where
  stopped := fun _ => by simp [stopOp, Core.setRunning]
  closing := fun _ _ _ => by simp [stopOp, Core.setRunning]
  waiting := fun _ _ _ => by simp [stopOp, Core.setRunning]
  cancelled := by
    intro stop member
    refine stopping.cancelled stop ?_
    simpa [stopOp, State.perform] using member
  called := by
    intro stop member
    exact ⟨by simp [stopOp, Core.setRunning],
      (stopping.called stop member).2⟩

theorem call {s : State} (stopping : s.Stopping) (stop : Nat)
    (ec : Option ErrorCode) (stopped : 0 < s.core.stops)
    (finished : ec = none → s.core.tasks = []) :
    (s.apply (callStopHandler stop ec s.core)).Stopping where
  stopped := stopping.stopped
  closing := stopping.closing
  waiting := stopping.waiting
  cancelled := stopping.cancelled
  called := by
    intro other member
    rcases List.mem_append.mp member with earlier | single
    · exact stopping.called other earlier
    · have result := (Prod.mk.inj (List.mem_singleton.mp single)).2
      exact ⟨stopped, finished result.symm⟩

theorem wait {s : State} (stopping : s.Stopping) (stop : Nat)
    (stopped : 0 < s.core.stops)
    (free : ∀ other flag, .wait other flag ∉ s.operations) :
    (s.perform (.wait stop)).Stopping where
  stopped := stopping.stopped
  closing := fun _ _ _ => stopped
  waiting := fun _ _ _ => stopped
  cancelled := by
    intro other member
    rcases mem_wait_perform member with
      earlier | ⟨_, uncancelled⟩ | ⟨⟨flag, earlier⟩, _⟩
    · exact stopping.cancelled other earlier
    · cases uncancelled
    · exact (free other flag earlier).elim
  called := stopping.called

theorem closed {s : State} (stopping : s.Stopping) (stop : Nat)
    (ec : Option ErrorCode) (stopped : 0 < s.core.stops)
    (free : s.core.hasTasks = true →
      ∀ operation ∈ s.operations, operation.pendingWait = false) :
    (s.apply (stopClosed stop ec s.core)).Stopping := by
  unfold stopClosed
  split
  case isTrue tasks =>
    refine stopping.wait stop stopped ?_
    intro other flag member
    cases flag with
    | false =>
        have taken := free tasks _ member
        simp [Operation.pendingWait] at taken
    | true =>
        have empty := stopping.cancelled other member
        simp [Core.hasTasks, Core.pendingTasks, empty] at tasks
  case isFalse noTasks =>
    refine stopping.call stop ec stopped ?_
    intro _
    cases tasks : s.core.tasks with
    | nil => rfl
    | cons front rest =>
        simp [Core.hasTasks, Core.pendingTasks, tasks] at noTasks

theorem waited {s : State} (stopping : s.Stopping) (stop : Nat)
    (ec : Option ErrorCode) (stopped : 0 < s.core.stops)
    (news : ec = some .operationAborted → s.core.tasks = []) :
    (s.apply (stopWaited stop ec s.core)).Stopping := by
  unfold stopWaited
  split
  · exact stopping.call stop _ stopped (fun _ => news rfl)
  · exact stopping.call stop _ stopped (by simp)
  · exact stopping.call stop _ stopped (by simp)

theorem resume {s : State} (stopping : s.Stopping) {operation : Operation}
    (member : operation ∈ s.operations) {ec : Option ErrorCode}
    (reports : operation.mayReport ec = true) (isOpen : Bool)
    (free : Event.TimerFree s (.resume operation ec isOpen)) :
    ({ s with operations := s.operations.erase operation }.apply
      (operation.resume isOpen ec s.core)).Stopping := by
  have erased := stopping.erase operation
  cases operation with
  | connect caller =>
      cases caller with
      | start handler => exact erased.keeps (.connected handler ec _)
      | queue op => exact erased.keeps (.call op ec isOpen _)
  | exchange op => exact erased.keeps (.call op ec isOpen _)
  | close graceful caller =>
      cases caller with
      | queue op => exact erased.keeps (.call op ec isOpen _)
      | stop stop =>
          refine erased.closed stop ec (stopping.closing _ _ member) ?_
          exact fun tasks other inRest =>
            free tasks other (List.mem_of_mem_erase inRest)
  | wait stop cancelled =>
      refine erased.waited stop ec (stopping.waiting _ _ member) ?_
      intro aborted
      have wasCancelled : cancelled = true := by
        simpa [Operation.mayReport, aborted] using reports
      exact stopping.cancelled stop (wasCancelled ▸ member)

theorem step {s t : State} {event : Event} (stopping : s.Stopping)
    (noRestart : event.NoRestart s) (free : event.TimerFree s)
    (stepped : Session.step s event = some t) : t.Stopping := by
  cases event with
  | push =>
      cases stepped
      exact stopping.keeps (.pushOp s.core)
  | start =>
      cases stepped
      exact stopping.start noRestart
  | stop graceful =>
      cases stepped
      exact stopping.stop graceful
  | post handler isOpen =>
      simp only [Session.step] at stepped
      split at stepped
      · cases stepped
        exact (stopping.posts _).keeps (.post handler isOpen s.core)
      · cases stepped
  | resume operation ec isOpen =>
      simp only [Session.step] at stepped
      split at stepped
      case isTrue enabled =>
        cases stepped
        exact stopping.resume enabled.1 enabled.2 isOpen free
      case isFalse => cases stepped

end Stopping

end State

theorem initial_stopping : machine.start.Stopping := by
  constructor <;> simp [machine]

/-- Every `async_stop` handler called without an error finds the session
stopped and its queue empty, as long as no stop arms the timer while another
one waits for it. -/
theorem reached_stopsFinished {s : State}
    (reached : machine.ReachedBy
      (fun before event => event.NoRestart before ∧ event.TimerFree before) s) :
    s.StopsFinished := by
  have stopping : s.Stopping := reached.invariant initial_stopping
    (fun _ _ _ _ stopping allowed stepped =>
      stopping.step allowed.1 allowed.2 stepped)
  intro stop called
  obtain ⟨stopped, tasks⟩ := stopping.called stop called
  exact ⟨stopping.stopped stopped, tasks⟩

/-- Two stops overlap; the first one waits for the timer, the second finds no
task left. -/
def drainedRun : List Event :=
  [.push, .post .processTask true, .stop .no, .stop .yes,
    .resume (.close .no (.stop 0)) none true,
    .resume (.exchange ⟨0, none, .exchanged, true⟩) (some .operationAborted)
      true,
    .post .advanceTask true,
    .resume (.wait 0 true) (some .operationAborted) true,
    .resume (.close .yes (.stop 1)) none true]

theorem stopsFinished_of_drainedRun :
    ∃ s, machine.runWhere
        (fun before event => event.NoRestart before ∧ event.TimerFree before)
        machine.start drainedRun = some s ∧
      s.core.stopCalls = [(0, none), (1, none)] ∧ s.StopsFinished :=
  ⟨_, rfl, rfl,
    reached_stopsFinished (Lib.Machine.reachedBy_of_runWhere drainedRun rfl)⟩

/-- The connect of the first task does not end soon after it is cancelled; the
second stop arms the timer under the first one. -/
def rearmedRun : List Event :=
  [.push, .post .processTask false, .stop .yes,
    .resume (.close .yes (.stop 0)) none false,
    .stop .yes,
    .resume (.close .yes (.stop 1)) none false,
    .resume (.wait 0 true) (some .operationAborted) false]

theorem rearmedRun_not_stopsFinished :
    ¬∀ s, machine.ReachedBy (fun before event => event.NoRestart before) s →
      s.StopsFinished := by
  intro finished
  have executed : ∃ s,
      machine.runWhere (fun before event => event.NoRestart before)
        machine.start rearmedRun = some s ∧
      (0, none) ∈ s.core.stopCalls ∧ s.core.tasks = [0] :=
    ⟨_, rfl, by decide, rfl⟩
  obtain ⟨s, run, called, tasks⟩ := executed
  have empty := (finished s
    (Lib.Machine.reachedBy_of_runWhere rearmedRun run) 0 called).2
  simp [tasks] at empty

end Fetchpp.Session

import Fetchpp.Client.Hosting

/-!
# Stopping a client

`client_stop_sessions_op` walks over the deque with two iterators and waits for
each session in turn.  Both are positions of the deque as it was when the
operation began; a session that a fetch adds invalidates them and is not
visited.  As long as no session is added the iterators are good whenever they
are used, and every session is stopped when the handler is called.
-/

namespace Fetchpp.Client

open Http Lib

def Event.creates (rules : UrlRules) (s : State) : Event → Bool
  | .fetch uri _ =>
      match selectProxy s.proxies uri with
      | .error _ => false
      | .ok proxy =>
          match fetchEndpoint rules proxy uri with
          | .error _ => false
          | .ok endpoint => (s.findSession endpoint).isNone
  | _ => false

/-- No stop is between its start and the call of its handler. -/
def State.idle (s : State) : Bool :=
  s.stopping.isEmpty && s.stopPosts.isEmpty

/-- No session is created while the client is being stopped. -/
def Event.Steady (rules : UrlRules) (s : State) (event : Event) : Prop :=
  event.creates rules s = true → s.idle = true

instance (rules : UrlRules) (s : State) (event : Event) :
    Decidable (event.Steady rules s) :=
  inferInstanceAs (Decidable (_ → _))

/-- No iterator was used after the deque had grown, and no session was running
when the handler of a stop was called. -/
def State.StopsSound (s : State) : Prop :=
  s.danglingUses = 0 ∧ ∀ call ∈ s.stopCalls, call.running = 0

def Halted (count : Nat) (sessions : List Hosted) : Prop :=
  ∀ index hosted, index < count → sessions[index]? = some hosted →
    hosted.running = false

theorem Hosted.execute_stopped (work : Work) {hosted : Hosted}
    (stopped : hosted.running = false) :
    (hosted.execute work).running = false := by
  have notStart : work.event ≠ .start := by
    cases work <;> simp [Work.event]
  exact Session.State.step_stopped (hosted.execute_step work) notStart stopped

theorem Hosted.Change.stopped {Issues : Work → Prop} {hosted after : Hosted}
    (changed : Hosted.Change Issues hosted after)
    (stopped : hosted.running = false) : after.running = false := by
  cases changed with
  | @dispatch work completed issues =>
      unfold Hosted.dispatch
      split
      · exact stopped
      · exact hosted.execute_stopped work stopped
  | @work work rest queued =>
      have remaining : ({ hosted with queued := rest } : Hosted).running =
          false := stopped
      exact Hosted.execute_stopped work remaining
  | advance _ notStart _ stepped =>
      exact Session.State.step_stopped stepped notStart stopped

theorem Halted.touches {Fresh : Hosted → Prop} {Issues : Work → Prop}
    {count : Nat} {sessions later : List Hosted}
    (halted : Halted count sessions) (inside : count ≤ sessions.length)
    (touches : Touches Fresh (Hosted.Change Issues) sessions later) :
    Halted count later := by
  intro index after before found
  rcases touches.getElem? found with same | ⟨hosted, earlier, changed⟩ |
    ⟨last, _⟩
  · exact halted index after before same
  · exact changed.stopped (halted index hosted before earlier)
  · omega

theorem Halted.succ {count : Nat} {sessions : List Hosted}
    (halted : Halted count sessions) {hosted : Hosted}
    (found : sessions[count]? = some hosted)
    (stopped : hosted.running = false) : Halted (count + 1) sessions := by
  intro index other before at_
  by_cases same : index = count
  · subst same
    rw [found] at at_
    cases at_
    exact stopped
  · exact halted index other (by omega) at_

/-- A session that ran a `stop_op` does not run. -/
def Hosted.StaysStopped (hosted : Hosted) : Prop :=
  hosted.stopped ≠ [] → hosted.running = false

namespace Hosted.StaysStopped

variable {hosted : Hosted}

theorem fresh (isNew : hosted.Fresh) : hosted.StaysStopped := by
  obtain ⟨endpoint, rfl⟩ := isNew
  intro someStop
  exact (someStop rfl).elim

theorem execute (stays : hosted.StaysStopped) (work : Work) :
    (hosted.execute work).StaysStopped := by
  cases work with
  | stop graceful op =>
      intro _
      simp [Hosted.execute, Hosted.running, Session.stopOp,
        Session.Core.setRunning]
  | push fetch =>
      intro someStop
      exact hosted.execute_stopped (.push fetch) (stays someStop)

theorem change {Issues : Work → Prop} {after : Hosted}
    (stays : hosted.StaysStopped)
    (changed : Hosted.Change Issues hosted after) : after.StaysStopped := by
  cases changed with
  | @dispatch work completed issues =>
      unfold Hosted.dispatch
      split
      · exact stays
      · exact stays.execute work
  | @work work rest queued =>
      have remaining : ({ hosted with queued := rest } : Hosted).StaysStopped :=
        stays
      exact remaining.execute work
  | advance _ notStart _ stepped =>
      intro someStop
      exact Session.State.step_stopped stepped notStart (stays someStop)

theorem of_called (stays : hosted.StaysStopped) {op : Nat}
    {ec : Option ErrorCode} (called : hosted.StopCalled op ec) :
    hosted.running = false := by
  obtain ⟨call, _, known, _⟩ := called
  apply stays
  intro none
  simp [none] at known

end Hosted.StaysStopped

/-- The operation stands at a session of the deque as it is now, and has
stopped those before. -/
structure StopOp.Valid (sessions : List Hosted) (op : StopOp) : Prop where
  last : op.end_ = sessions.length
  current : op.begin_ < op.end_
  before : Halted op.begin_ sessions

structure State.Stopping (s : State) : Prop where
  dangling : s.danglingUses = 0
  calls : ∀ call ∈ s.stopCalls, call.running = 0
  stopping : ∀ op ∈ s.stopping, op.Valid s.sessions
  posts : s.stopPosts ≠ [] → Halted s.sessions.length s.sessions
  stays : ∀ hosted ∈ s.sessions, hosted.StaysStopped

namespace State.Stopping

theorem touches {s t : State} {Issues : Work → Prop} (stopping : s.Stopping)
    (touches : Touches Hosted.Fresh (Hosted.Change Issues) s.sessions
      t.sessions)
    (steady : t.sessions.length = s.sessions.length ∨ s.idle = true)
    (operations : t.stopping = s.stopping) (posts : t.stopPosts = s.stopPosts)
    (calls : t.stopCalls = s.stopCalls)
    (dangling : t.danglingUses = s.danglingUses) : t.Stopping where
  dangling := dangling.trans stopping.dangling
  calls := calls ▸ stopping.calls
  stopping := by
    intro op member
    rw [operations] at member
    have valid := stopping.stopping op member
    have current := valid.current
    have last := valid.last
    rcases steady with length | idle
    · exact ⟨last.trans length.symm, current,
        valid.before.touches (by omega) touches⟩
    · simp only [State.idle, Bool.and_eq_true, List.isEmpty_iff] at idle
      simp [idle.1] at member
  posts := by
    intro some
    rw [posts] at some
    rcases steady with length | idle
    · rw [length]
      exact (stopping.posts some).touches (Nat.le_refl _) touches
    · simp only [State.idle, Bool.and_eq_true, List.isEmpty_iff] at idle
      exact (some idle.2).elim
  stays := touches.all stopping.stays (fun _ isNew => .fresh isNew)
    (fun _ _ changed stays => stays.change changed)

theorem advance {s t : State} {index : Nat} {event : Session.Event}
    (stopping : s.Stopping) (notPush : event ≠ .push)
    (notStart : event ≠ .start) (notStop : ∀ graceful, event ≠ .stop graceful)
    (advanced : s.advance index event = some t) : t.Stopping := by
  have touched : Touches Hosted.Fresh (Hosted.Change (fun _ => False))
      s.sessions t.sessions :=
    State.advance_touches notPush notStart notStop advanced
  unfold State.advance at advanced
  split at advanced
  · cases advanced
  · split at advanced
    · cases advanced
    · cases advanced
      exact stopping.touches touched (.inl (List.length_set ..)) rfl rfl rfl
        rfl

theorem work {s t : State} {index : Nat} (stopping : s.Stopping)
    (worked : s.work index = some t) : t.Stopping := by
  have touched : Touches Hosted.Fresh (Hosted.Change (fun _ => False))
      s.sessions t.sessions := State.work_touches worked
  unfold State.work at worked
  split at worked
  · cases worked
  · split at worked
    · cases worked
    · cases worked
      exact stopping.touches touched (.inl (List.length_set ..)) rfl rfl rfl
        rfl

theorem fetch {s : State} {rules : UrlRules} {uri : Url} {completed : Bool}
    (stopping : s.Stopping)
    (steady : (Event.fetch uri completed).Steady rules s) :
    (s.fetch rules uri completed).Stopping := by
  have touched := s.fetch_touches rules uri completed
  have fetched := s.fetch_cases rules uri completed
  generalize s.fetch rules uri completed = after at touched fetched ⊢
  cases fetched with
  | escaped => exact stopping.touches touched (.inl rfl) rfl rfl rfl rfl
  | known =>
      exact stopping.touches touched (.inl (List.length_set ..)) rfl rfl rfl
        rfl
  | created proxy endpoint selected built search =>
      have creates : (Event.fetch uri completed).creates rules s = true := by
        simp [Event.creates, selected, built, search]
      exact stopping.touches touched (.inr (steady creates)) rfl rfl rfl rfl

theorem loop {s : State} (stopping : s.Stopping) {op : StopOp}
    (last : op.end_ = s.sessions.length) (current : op.begin_ ≤ op.end_)
    (before : Halted op.begin_ s.sessions) (completed : Bool)
    (ec : Option ErrorCode) : (op.loop completed ec s).Stopping := by
  have touched := @StopOp.loop_touches (.stop op.graceful completed) op
    completed ec s trivial
  simp only [StopOp.loop] at touched ⊢
  by_cases more : op.begin_ = op.end_
  · rw [if_neg (by simp [more])]
    exact
      { dangling := by simp [last, stopping.dangling]
        calls := stopping.calls
        stopping := stopping.stopping
        posts := fun _ => by
          rw [more, last] at before
          exact before
        stays := stopping.stays }
  · rw [if_pos more] at touched ⊢
    have length : ∀ f, (s.sessions.modify op.begin_ f).length =
        s.sessions.length := fun f => List.length_modify f _ _
    have kept : ({ s with
        danglingUses := s.danglingUses +
          if s.sessions.length = op.end_ then 0 else 1
        sessions := s.sessions.modify op.begin_
          (Hosted.dispatch completed (.stop op.graceful op.op)) }
          : State).Stopping :=
      stopping.touches touched (.inl (length _)) rfl rfl rfl (by simp [last])
    refine ⟨kept.dangling, kept.calls, ?_, kept.posts, kept.stays⟩
    intro other member
    rcases List.mem_append.mp member with earlier | new
    · exact kept.stopping other earlier
    · rw [List.mem_singleton.mp new]
      exact ⟨last.trans (length _).symm, by omega,
        before.touches (by omega) touched⟩

theorem resume {s : State} (stopping : s.Stopping) {op : StopOp}
    (member : op ∈ s.stopping) {hosted : Hosted}
    (found : s.sessions[op.begin_]? = some hosted)
    {ec : Option ErrorCode} (called : hosted.StopCalled op.op ec)
    (completed : Bool) : (op.resume completed ec s).Stopping := by
  have valid := stopping.stopping op member
  have stopped := (stopping.stays hosted
    (List.mem_of_getElem? found)).of_called called
  have others : ({ s with stopping := s.stopping.erase op }
      : State).Stopping :=
    ⟨stopping.dangling, stopping.calls, fun other inRest =>
      stopping.stopping other (List.mem_of_mem_erase inRest),
      stopping.posts, stopping.stays⟩
  exact @loop _ others
    { op with
      begin_ := op.begin_ + 1
      ec_ := if ec.isSome then ec else op.ec_ }
    valid.last (Nat.succ_le_of_lt valid.current)
    (valid.before.succ found stopped) completed ec

theorem callStop {s : State} (stopping : s.Stopping) {op : Nat}
    {ec : Option ErrorCode} (posted : (op, ec) ∈ s.stopPosts) :
    (s.callStop op ec).Stopping := by
  have halted := stopping.posts (List.ne_nil_of_mem posted)
  have none : s.sessions.countP Hosted.running = 0 := by
    apply List.countP_eq_zero.mpr
    intro hosted member
    obtain ⟨index, inside, rfl⟩ := List.getElem_of_mem member
    simp [halted index _ inside (List.getElem?_eq_getElem inside)]
  refine ⟨stopping.dangling, ?_, stopping.stopping, ?_, stopping.stays⟩
  · intro call member
    rcases List.mem_append.mp member with earlier | new
    · exact stopping.calls call earlier
    · rw [List.mem_singleton.mp new]
      exact none
  · intro _
    exact halted

end State.Stopping

/-- The iterators of the stops are good whenever they are used, and every
session is stopped when a handler is called, as long as no fetch creates a
session while the client is being stopped. -/
theorem reached_stopsSound {rules : UrlRules} {maxPending : Nat} {s : State}
    (reached : (machine rules maxPending).ReachedBy
      (fun before event => event.Steady rules before) s) : s.StopsSound := by
  have stopping : s.Stopping := by
    induction reached with
    | start => constructor <;> simp [machine]
    | @step before after event _ steady stepped stopping =>
        cases event with
        | fetch uri completed =>
            cases stepped
            exact stopping.fetch steady
        | update update =>
            cases stepped
            exact ⟨stopping.dangling, stopping.calls, stopping.stopping,
              stopping.posts, stopping.stays⟩
        | stop graceful completed =>
            cases stepped
            have counted : ({ before with stops := before.stops + 1 }
                : State).Stopping :=
              ⟨stopping.dangling, stopping.calls, stopping.stopping,
                stopping.posts, stopping.stays⟩
            refine counted.loop rfl (Nat.zero_le _) ?_ completed none
            intro index hosted inside
            exact (Nat.not_lt_zero _ inside).elim
        | stopResumed op ec completed =>
            simp only [machine, step] at stepped
            split at stepped
            case h_1 => cases stepped
            case h_2 hosted found =>
              split at stepped
              case isTrue waits =>
                cases stepped
                exact stopping.resume waits.1 found waits.2 completed
              case isFalse => cases stepped
        | stopCalled op ec =>
            simp only [machine, step] at stepped
            split at stepped
            case isTrue posted =>
              cases stepped
              exact stopping.callStop posted
            case isFalse => cases stepped
        | work index => exact stopping.work stepped
        | post index handler isOpen =>
            exact stopping.advance (by simp) (by simp) (by simp) stepped
        | resume index operation ec isOpen =>
            exact stopping.advance (by simp) (by simp) (by simp) stepped
  exact ⟨stopping.dangling, stopping.calls⟩

def localStop : StopOp :=
  { op := 0, graceful := .yes, begin_ := 0, end_ := 1 }

/-- A client with one session, whose only request has failed, is stopped. -/
def stoppedRun : List Event :=
  [.fetch localUrl false,
    .post 0 .processTask false,
    .resume 0 (.connect (.queue { task := 0, coro := .connected }))
      (some .connectionRefused) false,
    .post 0 .advanceTask false,
    .stop .yes false,
    .resume 0 (.close .yes (.stop 0)) none false,
    .stopResumed localStop none false,
    .stopCalled 0 none]

theorem stopsSound_of_stoppedRun :
    ∃ s, (machine specialRules 10).runWhere
        (fun before event => event.Steady specialRules before)
        (machine specialRules 10).start stoppedRun = some s ∧
      s.StopsSound := by
  have executed : ((machine specialRules 10).runWhere
      (fun before event => event.Steady specialRules before)
      (machine specialRules 10).start stoppedRun).isSome = true := by
    decide +kernel
  obtain ⟨s, ran⟩ := Option.isSome_iff_exists.mp executed
  exact ⟨s, ran, reached_stopsSound (Machine.reachedBy_of_runWhere _ ran)⟩

def secureLocalUrl : Url where
  scheme := "https"
  hostname := "localhost"
  origin := "https://localhost"

/-- Another endpoint is fetched while the session is being closed. -/
def grownRun : List Event :=
  stoppedRun.take 5 ++ .fetch secureLocalUrl false :: stoppedRun.drop 5

theorem grownRun_not_stopsSound :
    ¬∀ rules maxPending s, (machine rules maxPending).Reached s →
      s.StopsSound := by
  intro sound
  have executed : ((machine specialRules 10).run
      (machine specialRules 10).start grownRun).map (fun s =>
        (s.danglingUses, s.stopCalls)) = some (1, [⟨0, none, 1⟩]) := by
    decide +kernel
  obtain ⟨s, ran, facts⟩ := Option.map_eq_some_iff.mp executed
  obtain ⟨dangling, _⟩ := Prod.mk.inj facts
  have none := (sound specialRules 10 s
    (Machine.reached_of_run grownRun ran)).1
  omega

end Fetchpp.Client

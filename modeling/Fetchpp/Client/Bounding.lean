import Fetchpp.Client.Hosting

/-!
# Pending tasks of a session

`get_session` compares the pending tasks of a session with the limit on the
client's strand, and the tasks are counted when the pushes run on the strand of
the session.  Pushes that are queued there are not counted; the limit holds as
long as a fetch finds room for them too.
-/

namespace Fetchpp.Client

open Http Lib

def Work.isPush : Work → Bool
  | .push _ => true
  | .stop _ _ => false

def Hosted.queuedPushes (hosted : Hosted) : Nat :=
  hosted.queued.countP Work.isPush

/-- The session has room for one more push after those queued on its strand,
or does not run. -/
def Hosted.hasRoom (maxPending : Nat) (hosted : Hosted) : Bool :=
  !hosted.running ||
    hosted.pendingTasks + hosted.queuedPushes < maxPending

/-- If a fetch gets a session that is there, that session has room. -/
def Event.hasRoom (rules : UrlRules) (s : State) : Event → Bool
  | .fetch uri _ =>
      match selectProxy s.proxies uri with
      | .error _ => true
      | .ok proxy =>
          match fetchEndpoint rules proxy uri with
          | .error _ => true
          | .ok endpoint =>
              match s.findSession endpoint with
              | none => true
              | some index =>
                  (s.sessions[index]?).all (Hosted.hasRoom s.maxPending)
  | _ => true

/-- The limit holds, for the pushes that are queued as well while the session
runs. -/
structure Hosted.Bounded (maxPending : Nat) (hosted : Hosted) : Prop where
  pending : hosted.pendingTasks ≤ maxPending
  queued : hosted.running = true →
    hosted.pendingTasks + hosted.queuedPushes ≤ maxPending

namespace Hosted.Bounded

variable {maxPending : Nat} {hosted : Hosted}

theorem fresh {endpoint : SessionEndpoint} :
    ({ endpoint := endpoint } : Hosted).Bounded maxPending :=
  ⟨Nat.zero_le _, fun _ => Nat.zero_le _⟩

theorem push (bounded : hosted.Bounded maxPending) (fetch : Fetch)
    (room : hosted.running = true →
      hosted.pendingTasks + hosted.queuedPushes < maxPending) :
    (hosted.execute (.push fetch)).Bounded maxPending := by
  cases running : hosted.session.core.running with
  | false =>
      constructor
      · simpa [Hosted.execute, pendingTasks, Session.Core.pendingTasks,
          Session.pushOp_stopped running, Session.Core.postHandler] using
          bounded.pending
      · simp [Hosted.execute, Hosted.running,
          Session.pushOp_stopped running, Session.Core.postHandler, running]
  | true =>
      have more := room running
      have counted : (hosted.execute (.push fetch)).pendingTasks =
          hosted.pendingTasks + 1 := by
        simp [Hosted.execute, pendingTasks, Session.Core.pendingTasks,
          Session.pushOp_running running, Session.Core.pushTask]
      have kept : (hosted.execute (.push fetch)).queuedPushes =
          hosted.queuedPushes := by
        simp [queuedPushes]
      constructor
      · omega
      · intro _
        omega

theorem stop (bounded : hosted.Bounded maxPending)
    (graceful : GracefulShutdown) (op : Nat) :
    (hosted.execute (.stop graceful op)).Bounded maxPending := by
  constructor
  · simpa [Hosted.execute, pendingTasks, Session.Core.pendingTasks,
      Session.stopOp, Session.Core.setRunning] using bounded.pending
  · simp [Hosted.execute, Hosted.running, Session.stopOp,
      Session.Core.setRunning]

theorem work (bounded : hosted.Bounded maxPending) {work : Work}
    {rest : List Work} (queued : hosted.queued = work :: rest) :
    (({ hosted with queued := rest } : Hosted).execute work).Bounded
      maxPending := by
  have counted : hosted.queuedPushes =
      ({ hosted with queued := rest } : Hosted).queuedPushes +
        if work.isPush = true then 1 else 0 := by
    simp only [queuedPushes, queued, List.countP_cons]
  have remaining : ({ hosted with queued := rest } : Hosted).Bounded
      maxPending := by
    refine ⟨bounded.pending, ?_⟩
    intro running
    have all := bounded.queued running
    simp only [pendingTasks] at all ⊢
    omega
  cases work with
  | stop graceful op => exact remaining.stop graceful op
  | push fetch =>
      apply remaining.push fetch
      intro running
      have all := bounded.queued running
      simp only [Work.isPush, if_true] at counted
      simp only [pendingTasks] at all ⊢
      omega

theorem advance (bounded : hosted.Bounded maxPending)
    {event : Session.Event} {next : Session.State}
    (notPush : event ≠ .push) (notStart : event ≠ .start)
    (stepped : Session.step hosted.session event = some next) :
    ({ hosted with session := next } : Hosted).Bounded maxPending := by
  have fewer : next.core.tasks.length ≤
      hosted.session.core.tasks.length := by
    obtain ⟨_, rfl⟩ := Session.step_eq stepped
    rw [Session.State.apply_core]
    exact Session.Event.outcome_tasks_le notPush _
  have pending := bounded.pending
  simp only [pendingTasks, Session.Core.pendingTasks] at pending
  constructor
  · simp only [pendingTasks, Session.Core.pendingTasks]
    omega
  · intro running
    cases before : hosted.session.core.running with
    | false =>
        have stopped := Session.State.step_stopped stepped notStart before
        simp [Hosted.running, stopped] at running
    | true =>
        have all := bounded.queued before
        simp only [pendingTasks, Session.Core.pendingTasks,
          queuedPushes] at all ⊢
        omega

theorem dispatch (bounded : hosted.Bounded maxPending) (completed : Bool)
    (fetch : Fetch) (room : hosted.hasRoom maxPending = true) :
    (hosted.dispatch completed (.push fetch)).Bounded maxPending := by
  have free : hosted.running = true →
      hosted.pendingTasks + hosted.queuedPushes < maxPending := by
    intro running
    simpa [hasRoom, running] using room
  unfold Hosted.dispatch
  split
  · refine ⟨bounded.pending, ?_⟩
    intro running
    have less := free running
    simp only [pendingTasks, queuedPushes, List.countP_append,
      List.countP_singleton, Work.isPush, if_true] at less ⊢
    omega
  · exact bounded.push fetch free

end Hosted.Bounded

theorem reached_maxPending {rules : UrlRules} {maxPending : Nat} {s : State}
    (reached : (machine rules maxPending).Reached s) :
    s.maxPending = maxPending := by
  induction reached with
  | start => rfl
  | step _ _ stepped induction =>
      exact (step_settings stepped).1.trans induction

theorem Hosted.Bounded.dispatch_stop {maxPending : Nat} {hosted : Hosted}
    (bounded : hosted.Bounded maxPending) (completed : Bool)
    (graceful : GracefulShutdown) (op : Nat) :
    (hosted.dispatch completed (.stop graceful op)).Bounded maxPending := by
  unfold Hosted.dispatch
  split
  · refine ⟨bounded.pending, ?_⟩
    intro running
    have all := bounded.queued running
    simpa [pendingTasks, queuedPushes, Work.isPush] using all
  · exact bounded.stop graceful op

theorem Hosted.Bounded.change {maxPending : Nat} {event : Event}
    {hosted after : Hosted} (bounded : hosted.Bounded maxPending)
    (notFetch : ∀ uri completed, event ≠ .fetch uri completed)
    (changed : Hosted.Change event.Issues hosted after) :
    after.Bounded maxPending := by
  cases changed with
  | @dispatch work completed issues =>
      cases work with
      | stop graceful op => exact bounded.dispatch_stop completed graceful op
      | push fetch =>
          cases event with
          | fetch uri completed => exact (notFetch uri completed rfl).elim
          | _ => exact issues.elim
  | work queued => exact bounded.work queued
  | advance notPush notStart _ stepped =>
      exact bounded.advance notPush notStart stepped

theorem State.fetch_bounded {rules : UrlRules} {uri : Url} {completed : Bool}
    {s : State} (positive : 1 ≤ s.maxPending)
    (bounded : ∀ hosted ∈ s.sessions, hosted.Bounded s.maxPending)
    (room : (Event.fetch uri completed).hasRoom rules s = true) :
    ∀ hosted ∈ (s.fetch rules uri completed).sessions,
      hosted.Bounded s.maxPending := by
  have fetched := s.fetch_cases rules uri completed
  generalize s.fetch rules uri completed = after at fetched
  cases fetched with
  | escaped => exact bounded
  | known proxy index hosted selected built search found _ =>
      have free : hosted.hasRoom s.maxPending = true := by
        simpa [Event.hasRoom, selected, built, search, found] using room
      intro other member
      rcases List.mem_or_eq_of_mem_set member with kept | changed
      · exact bounded other kept
      · rw [changed]
        exact (bounded hosted (List.mem_of_getElem? found)).dispatch
          completed _ free
  | created proxy endpoint =>
      intro other member
      rcases List.mem_append.mp member with kept | added
      · exact bounded other kept
      · rw [List.mem_singleton.mp added]
        apply Hosted.Bounded.fresh.push
        intro _
        exact positive

/-- No session holds more pending tasks than the limit, as long as no fetch is
handed to a running session whose strand has as many pushes queued as there is
room for. -/
theorem reached_withinLimit {rules : UrlRules} {maxPending : Nat}
    (positive : 1 ≤ maxPending) {s : State}
    (reached : (machine rules maxPending).ReachedBy
      (fun before event => event.hasRoom rules before = true) s) :
    ∀ hosted ∈ s.sessions, hosted.pendingTasks ≤ maxPending := by
  have bounded : ∀ hosted ∈ s.sessions, hosted.Bounded maxPending := by
    induction reached with
    | start => simp [machine]
    | @step before after event earlier room stepped bounded =>
        have limit := reached_maxPending earlier.reached
        by_cases fetches : ∃ uri completed, event = .fetch uri completed
        · obtain ⟨uri, completed, rfl⟩ := fetches
          cases stepped
          subst limit
          exact State.fetch_bounded positive bounded room
        · have notFetch : ∀ uri completed, event ≠ .fetch uri completed :=
            fun uri completed same => fetches ⟨uri, completed, same⟩
          refine (step_touches stepped).all bounded ?_
            (fun _ _ changed holds => holds.change notFetch changed)
          rintro component ⟨endpoint, rfl⟩
          exact .fresh
  exact fun hosted member => (bounded hosted member).pending

/-- With a limit of one a push is dispatched to sessions that have nothing to
do, so that it is never queued. -/
theorem reached_unqueued {rules : UrlRules} {s : State}
    (reached : (machine rules 1).ReachedBy (fun _ event => event.NoStop) s) :
    ∀ hosted ∈ s.sessions, hosted.queued = [] := by
  induction reached with
  | start => simp [machine]
  | @step before after event earlier noStop stepped unqueued =>
      have runs := reached_pushOnly earlier
      by_cases fetches : ∃ uri completed, event = .fetch uri completed
      · obtain ⟨uri, completed, rfl⟩ := fetches
        have fetched := before.fetch_cases rules uri completed
        rw [Option.some.inj stepped] at fetched
        cases fetched with
        | escaped => exact unqueued
        | known proxy index hosted _ _ _ found room =>
            have inList := List.mem_of_getElem? found
            have noTasks : hosted.session.core.tasks = [] := by
              rw [reached_maxPending earlier.reached] at room
              exact List.eq_nil_of_length_eq_zero (Nat.lt_one_iff.mp room)
            obtain ⟨posts, operations⟩ := Session.quiet_of_no_tasks
              (runs hosted inList).reached noTasks
            have idle : hosted.busy completed = false := by
              simp [Hosted.busy, posts, operations, unqueued hosted inList]
            intro other member
            rcases List.mem_or_eq_of_mem_set member with kept | changed
            · exact unqueued other kept
            · rw [changed, Hosted.dispatch, if_neg (by simp [idle]),
                Hosted.execute_queued]
              exact unqueued hosted inList
        | created proxy endpoint =>
            intro other member
            rcases List.mem_append.mp member with kept | added
            · exact unqueued other kept
            · rw [List.mem_singleton.mp added, Hosted.execute_queued]
      · refine (step_touches stepped).all unqueued ?_ ?_
        · rintro component ⟨endpoint, rfl⟩
          rfl
        · intro hosted changedOne changed empty
          cases changed with
          | work queued => simp [empty] at queued
          | advance => exact empty
          | @dispatch work completed issues =>
              cases event with
              | fetch uri completed => exact (fetches ⟨_, _, rfl⟩).elim
              | stop => exact noStop.elim
              | stopResumed op ec completed =>
                  simp only [machine, step] at stepped
                  split at stepped
                  · cases stepped
                  · simp [reached_unstopped earlier] at stepped
              | _ => exact issues.elim

/-- With a limit of one every fetch finds room. -/
theorem reached_hasRoom {rules : UrlRules} {s : State}
    (reached : (machine rules 1).ReachedBy (fun _ event => event.NoStop) s)
    (event : Event) : event.hasRoom rules s = true := by
  cases event with
  | fetch uri completed =>
      simp only [Event.hasRoom]
      split
      · rfl
      · split
        · rfl
        · split
          · rfl
          · rename_i endpoint _ _ index search
            obtain ⟨hosted, found, _, room⟩ := State.findSession_eq_some search
            have unqueued := reached_unqueued reached hosted
              (List.mem_of_getElem? found)
            simp [found, Hosted.hasRoom, Hosted.queuedPushes, unqueued, room]
  | _ => rfl

/-- A fetch that finds no room for a third request and opens a session. -/
def spreadRun : List Event :=
  [.fetch localUrl false, .fetch localUrl false, .post 0 .processTask false,
    .work 0, .fetch localUrl false]

theorem withinLimit_of_spreadRun :
    ∃ s : State, s.sessions.map Hosted.pendingTasks = [2, 1] ∧
      ∀ hosted ∈ s.sessions, hosted.pendingTasks ≤ 2 := by
  have executed : ((machine specialRules 2).runWhere
      (fun before event => event.hasRoom specialRules before = true)
      (machine specialRules 2).start spreadRun).map
        (fun s => s.sessions.map Hosted.pendingTasks) = some [2, 1] := by
    decide +kernel
  obtain ⟨s, ran, pending⟩ := Option.map_eq_some_iff.mp executed
  exact ⟨s, pending, reached_withinLimit (by decide)
    (Machine.reachedBy_of_runWhere spreadRun ran)⟩

/-- Two fetches are queued behind the first one's `process_task` before either
push has run. -/
def crowdedRun : List Event :=
  [.fetch localUrl false, .fetch localUrl false, .fetch localUrl false,
    .post 0 .processTask false, .work 0, .work 0]

theorem crowdedRun_not_withinLimit :
    ¬∀ rules maxPending, 1 ≤ maxPending → ∀ s,
      (machine rules maxPending).Reached s →
      ∀ hosted ∈ s.sessions, hosted.pendingTasks ≤ maxPending := by
  intro within
  have executed : ((machine specialRules 2).run (machine specialRules 2).start
      crowdedRun).map (fun s => s.sessions.map Hosted.pendingTasks) =
      some [3] := by
    decide +kernel
  obtain ⟨s, ran, pending⟩ := Option.map_eq_some_iff.mp executed
  obtain ⟨hosted, member, three⟩ : ∃ hosted ∈ s.sessions,
      hosted.pendingTasks = 3 := by
    apply List.mem_map.mp
    rw [pending]
    exact List.mem_singleton.mpr rfl
  have two := within specialRules 2 (by decide) s
    (Machine.reached_of_run crowdedRun ran) hosted member
  omega

end Fetchpp.Client

import Fetchpp.Lib.Pool
import Fetchpp.Client.Core
import Fetchpp.Session.Failing

/-!
# What a client does to its sessions

A step of the client touches one session at most: it dispatches work to its
strand, runs the first work queued there, or lets the session take a step of
its own.  Every session of a client is therefore in a state of the session's
own machine, reached without `async_start`, and without `async_stop` as long as
the client is not stopped.
-/

namespace Fetchpp.Client

open Http Lib

/-- The session's event behind a work. -/
def Work.event : Work → Session.Event
  | .push _ => .push
  | .stop graceful _ => .stop graceful

/-- What a step of the client may do to one session; `Issues` are the works it
may dispatch. -/
inductive Hosted.Change (Issues : Work → Prop) : Hosted → Hosted → Prop where
  | dispatch {hosted : Hosted} {work : Work} (completed : Bool) :
      Issues work →
      Change Issues hosted (hosted.dispatch completed work)
  | work {hosted : Hosted} {work : Work} {rest : List Work} :
      hosted.queued = work :: rest →
      Change Issues hosted ({ hosted with queued := rest }.execute work)
  | advance {hosted : Hosted} {event : Session.Event} {next : Session.State} :
      event ≠ .push → event ≠ .start → (∀ graceful, event ≠ .stop graceful) →
      Session.step hosted.session event = some next →
      Change Issues hosted { hosted with session := next }

def Hosted.Fresh (hosted : Hosted) : Prop :=
  ∃ endpoint, hosted = { endpoint := endpoint }

theorem Hosted.execute_step (work : Work) (hosted : Hosted) :
    Session.step hosted.session work.event =
      some (hosted.execute work).session := by
  cases work <;> rfl

@[simp] theorem Hosted.execute_queued (work : Work) (hosted : Hosted) :
    (hosted.execute work).queued = hosted.queued := by
  cases work <;> rfl

@[simp] theorem Hosted.execute_endpoint (work : Work) (hosted : Hosted) :
    (hosted.execute work).endpoint = hosted.endpoint := by
  cases work <;> rfl

theorem Hosted.handed_execute (fetch : Fetch) (hosted : Hosted) :
    (hosted.execute (.push fetch)).handed.Perm (fetch :: hosted.handed) := by
  simp only [Hosted.handed, Hosted.execute, List.append_assoc]
  exact List.perm_middle

theorem Hosted.handed_dispatch (completed : Bool) (fetch : Fetch)
    (hosted : Hosted) :
    (hosted.dispatch completed (.push fetch)).handed.Perm
      (fetch :: hosted.handed) := by
  unfold Hosted.dispatch
  split
  · simp only [Hosted.handed, List.filterMap_append, List.filterMap_cons,
      List.filterMap_nil, ← List.append_assoc]
    exact List.perm_append_singleton _ _
  · exact hosted.handed_execute fetch

/-- The session is in a state it reached by allowed events, and all work
queued for it is allowed. -/
structure Hosted.RunsBy (Allowed : Session.Event → Prop) (hosted : Hosted) :
    Prop where
  queued : ∀ work ∈ hosted.queued, Allowed work.event
  reached : Session.machine.ReachedBy (fun _ event => Allowed event)
    hosted.session

namespace Hosted.RunsBy

variable {Allowed : Session.Event → Prop} {hosted after : Hosted}

theorem fresh (isNew : hosted.Fresh) : hosted.RunsBy Allowed := by
  obtain ⟨endpoint, rfl⟩ := isNew
  exact ⟨by simp, .start⟩

theorem execute {work : Work} (runs : hosted.RunsBy Allowed)
    (allowed : Allowed work.event) : (hosted.execute work).RunsBy Allowed := by
  refine ⟨?_, runs.reached.step allowed (hosted.execute_step work)⟩
  rw [Hosted.execute_queued]
  exact runs.queued

theorem dispatch {work : Work} (runs : hosted.RunsBy Allowed)
    (allowed : Allowed work.event) (completed : Bool) :
    (hosted.dispatch completed work).RunsBy Allowed := by
  unfold Hosted.dispatch
  split
  · refine ⟨?_, runs.reached⟩
    intro other member
    rcases List.mem_append.mp member with earlier | single
    · exact runs.queued other earlier
    · exact List.mem_singleton.mp single ▸ allowed
  · exact runs.execute allowed

theorem change {Issues : Work → Prop} (runs : hosted.RunsBy Allowed)
    (issued : ∀ work, Issues work → Allowed work.event)
    (inner : ∀ event : Session.Event, event ≠ .push → event ≠ .start →
      (∀ graceful, event ≠ .stop graceful) → Allowed event)
    (changed : Hosted.Change Issues hosted after) : after.RunsBy Allowed := by
  cases changed with
  | dispatch completed issues => exact runs.dispatch (issued _ issues) completed
  | @work work rest queued =>
      have allowed := runs.queued work (queued ▸ List.mem_cons_self)
      have remaining : ({ hosted with queued := rest } : Hosted).RunsBy
          Allowed :=
        ⟨fun other member => runs.queued other
          (queued ▸ List.mem_cons_of_mem _ member), runs.reached⟩
      exact remaining.execute allowed
  | advance notPush notStart notStop stepped =>
      exact ⟨runs.queued,
        runs.reached.step (inner _ notPush notStart notStop) stepped⟩

end Hosted.RunsBy

/-- `get_session` finds no session exactly if those of the endpoint are full. -/
theorem State.findSession_eq_none {endpoint : SessionEndpoint} {s : State} :
    s.findSession endpoint = none ↔ ∀ hosted ∈ s.sessions,
      hosted.endpoint = endpoint → s.maxPending ≤ hosted.pendingTasks := by
  simp only [findSession, List.findIdx?_eq_none_iff]
  refine forall₂_congr fun hosted _ => ?_
  rw [← Bool.not_eq_true, Bool.and_eq_true, SessionEndpoint.beq_iff,
    decide_eq_true_eq, not_and, Nat.not_lt, eq_comm]

theorem State.findSession_eq_some {endpoint : SessionEndpoint} {s : State}
    {index : Nat} (search : s.findSession endpoint = some index) :
    ∃ hosted, s.sessions[index]? = some hosted ∧
      hosted.endpoint = endpoint ∧ hosted.pendingTasks < s.maxPending := by
  obtain ⟨inside, accepted, _⟩ :=
    List.findIdx?_eq_some_iff_getElem.mp search
  simp only [Bool.and_eq_true, SessionEndpoint.beq_iff, decide_eq_true_eq]
    at accepted
  exact ⟨_, List.getElem?_eq_getElem inside, accepted.1.symm, accepted.2⟩

/-- `get_session` returns a session with the endpoint that has room, or a new
one if there is none. -/
theorem State.pushRequest_cases (endpoint : SessionEndpoint) (fetch : Fetch)
    (completed : Bool) (s : State) :
    (∃ index hosted, s.findSession endpoint = some index ∧
      s.sessions[index]? = some hosted ∧ hosted.endpoint = endpoint ∧
      hosted.pendingTasks < s.maxPending ∧
      s.pushRequest endpoint fetch completed = { s with
        sessions := s.sessions.set index
          (hosted.dispatch completed (.push fetch)) }) ∨
    (s.findSession endpoint = none ∧
      s.pushRequest endpoint fetch completed = { s with
        sessions := s.sessions ++
          [({ endpoint := endpoint } : Hosted).execute (.push fetch)] }) := by
  cases search : s.findSession endpoint with
  | some index =>
      left
      obtain ⟨hosted, found, same, room⟩ := State.findSession_eq_some search
      refine ⟨index, hosted, rfl, found, same, room, ?_⟩
      simp only [pushRequest, getSession, search]
      rw [List.modify_eq_set_getElem?, found]
      rfl
  | none =>
      refine .inr ⟨rfl, ?_⟩
      simp only [pushRequest, getSession, search]
      rw [List.modify_eq_set_getElem?, List.getElem?_concat_length]
      simp [Hosted.dispatch, Hosted.busy]

/-- The works an event may dispatch. -/
def Event.Issues : Event → Work → Prop
  | .fetch _ _, .push _ => True
  | .stop _ _, .stop _ _ => True
  | .stopResumed _ _ _, .stop _ _ => True
  | _, _ => False

theorem StopOp.loop_touches {event : Event} (op : StopOp) (completed : Bool)
    (ec : Option ErrorCode) (s : State)
    (issues : event.Issues (.stop op.graceful op.op)) :
    Touches Hosted.Fresh (Hosted.Change event.Issues) s.sessions
      (op.loop completed ec s).sessions := by
  simp only [StopOp.loop]
  split
  · rw [List.modify_eq_set_getElem?]
    cases found : s.sessions[op.begin_]? with
    | none => exact .none _
    | some hosted => exact .one found (.dispatch completed issues)
  · exact .none _

/-- The cases of a fetch: an exception escapes, or the request is pushed onto
a session that has room, or onto a new one. -/
inductive State.Fetched (rules : UrlRules) (uri : Url) (completed : Bool)
    (s : State) : State → Prop where
  | escaped (exception : Exception) :
      s.fetchOp rules uri completed = .error exception →
      Fetched rules uri completed s { s with
        fetches := s.fetches + 1
        escaped := s.escaped ++ [(s.fetches, exception)] }
  | known (proxy : Option Proxy) (index : Nat) (hosted : Hosted) :
      selectProxy s.proxies uri = .ok proxy →
      fetchEndpoint rules proxy uri = .ok hosted.endpoint →
      s.findSession hosted.endpoint = some index →
      s.sessions[index]? = some hosted →
      hosted.pendingTasks < s.maxPending →
      Fetched rules uri completed s { s with
        fetches := s.fetches + 1
        sessions := s.sessions.set index
          (hosted.dispatch completed (.push ⟨s.fetches, uri, proxy⟩)) }
  | created (proxy : Option Proxy) (endpoint : SessionEndpoint) :
      selectProxy s.proxies uri = .ok proxy →
      fetchEndpoint rules proxy uri = .ok endpoint →
      s.findSession endpoint = none →
      Fetched rules uri completed s { s with
        fetches := s.fetches + 1
        sessions := s.sessions ++ [({ endpoint := endpoint } : Hosted).execute
          (.push ⟨s.fetches, uri, proxy⟩)] }

theorem State.fetch_cases (rules : UrlRules) (uri : Url) (completed : Bool)
    (s : State) :
    s.Fetched rules uri completed (s.fetch rules uri completed) := by
  cases fetched : s.fetchOp rules uri completed with
  | error exception =>
      rw [State.fetch, fetched]
      exact .escaped exception fetched
  | ok after =>
      rw [State.fetch, fetched]
      unfold State.fetchOp at fetched
      split at fetched
      · cases fetched
      · rename_i proxy selected
        split at fetched
        · cases fetched
        · rename_i endpoint built
          cases fetched
          rcases s.pushRequest_cases endpoint ⟨s.fetches, uri, proxy⟩ completed
            with ⟨index, hosted, search, found, same, room, pushed⟩ |
              ⟨search, pushed⟩
          · subst same
            rw [pushed]
            exact .known proxy index hosted selected built search found room
          · rw [pushed]
            exact .created proxy endpoint selected built search

theorem State.fetch_touches (rules : UrlRules) (uri : Url) (completed : Bool)
    (s : State) :
    Touches Hosted.Fresh (Hosted.Change (Event.fetch uri completed).Issues)
      s.sessions (s.fetch rules uri completed).sessions := by
  have fetched := s.fetch_cases rules uri completed
  generalize s.fetch rules uri completed = after at fetched ⊢
  cases fetched with
  | escaped => exact .none _
  | known proxy index hosted _ _ _ found =>
      exact .one found (.dispatch completed trivial)
  | created proxy endpoint =>
      have created : Hosted.Change (Event.fetch uri completed).Issues
          { endpoint := endpoint }
          (Hosted.dispatch false (.push ⟨s.fetches, uri, proxy⟩)
            { endpoint := endpoint }) := .dispatch false trivial
      exact .new ⟨endpoint, rfl⟩ created

theorem State.advance_touches {index : Nat} {event : Session.Event}
    {Issues : Work → Prop} {s t : State}
    (notPush : event ≠ .push) (notStart : event ≠ .start)
    (notStop : ∀ graceful, event ≠ .stop graceful)
    (advanced : s.advance index event = some t) :
    Touches Hosted.Fresh (Hosted.Change Issues) s.sessions t.sessions := by
  unfold State.advance at advanced
  cases found : s.sessions[index]? with
  | none => simp [found] at advanced
  | some hosted =>
      cases stepped : Session.step hosted.session event with
      | none => simp [found, stepped] at advanced
      | some next =>
          simp only [found, stepped, Option.some.injEq] at advanced
          subst advanced
          exact .one found (.advance notPush notStart notStop stepped)

theorem State.work_touches {index : Nat} {Issues : Work → Prop} {s t : State}
    (worked : s.work index = some t) :
    Touches Hosted.Fresh (Hosted.Change Issues) s.sessions t.sessions := by
  unfold State.work at worked
  cases found : s.sessions[index]? with
  | none => simp [found] at worked
  | some hosted =>
      cases queued : hosted.queued with
      | nil => simp [found, queued] at worked
      | cons work rest =>
          simp only [found, queued, Option.some.injEq] at worked
          subst worked
          exact .one found (.work queued)

theorem step_touches {rules : UrlRules} {s t : State} {event : Event}
    (stepped : step rules s event = some t) :
    Touches Hosted.Fresh (Hosted.Change event.Issues) s.sessions
      t.sessions := by
  cases event with
  | fetch uri completed =>
      cases stepped
      exact s.fetch_touches rules uri completed
  | update update =>
      cases stepped
      exact .none _
  | stop graceful completed =>
      cases stepped
      exact StopOp.loop_touches _ completed none
        { s with stops := s.stops + 1 } trivial
  | stopResumed op ec completed =>
      simp only [step] at stepped
      split at stepped
      · cases stepped
      · split at stepped
        · cases stepped
          exact StopOp.loop_touches _ completed ec
            { s with stopping := s.stopping.erase op } trivial
        · cases stepped
  | stopCalled op ec =>
      simp only [step] at stepped
      split at stepped
      · cases stepped
        exact .none _
      · cases stepped
  | work index => exact State.work_touches stepped
  | post index handler isOpen =>
      exact State.advance_touches (by simp) (by simp) (by simp) stepped
  | resume index operation ec isOpen =>
      exact State.advance_touches (by simp) (by simp) (by simp) stepped

theorem step_runsBy {rules : UrlRules} {Allowed : Session.Event → Prop}
    {s t : State} {event : Event}
    (issued : ∀ work, event.Issues work → Allowed work.event)
    (inner : ∀ event : Session.Event, event ≠ .push → event ≠ .start →
      (∀ graceful, event ≠ .stop graceful) → Allowed event)
    (runs : ∀ hosted ∈ s.sessions, hosted.RunsBy Allowed)
    (stepped : step rules s event = some t) :
    ∀ hosted ∈ t.sessions, hosted.RunsBy Allowed :=
  (step_touches stepped).all runs (fun _ isNew => .fresh isNew)
    (fun _ _ changed before => before.change issued inner changed)

/-- The sessions of a client are never started by it. -/
theorem reached_runs {rules : UrlRules} {maxPending : Nat} {s : State}
    (reached : (machine rules maxPending).Reached s) :
    ∀ hosted ∈ s.sessions, hosted.RunsBy (fun event => event ≠ .start) := by
  induction reached with
  | start => simp [machine]
  | step _ _ stepped runs =>
      refine step_runsBy ?_ (fun _ _ notStart _ => notStart) runs stepped
      intro work _
      cases work <;> simp [Work.event]

theorem State.advance_eq {index : Nat} {event : Session.Event} {s t : State}
    (advanced : s.advance index event = some t) :
    ∃ hosted next, s.sessions[index]? = some hosted ∧
      Session.step hosted.session event = some next ∧
      t = { s with
        sessions := s.sessions.set index { hosted with session := next } } := by
  unfold State.advance at advanced
  split at advanced
  case h_1 => cases advanced
  case h_2 hosted found =>
    split at advanced
    case h_1 => cases advanced
    case h_2 next stepped =>
      cases advanced
      exact ⟨hosted, next, found, stepped, rfl⟩

theorem State.advance_sessions {index : Nat} {event : Session.Event}
    {s t : State} (advanced : s.advance index event = some t) :
    ∃ sessions, t = { s with sessions := sessions } := by
  obtain ⟨_, _, _, _, rfl⟩ := advance_eq advanced
  exact ⟨_, rfl⟩

/-- The limit never changes, the proxies only by an update. -/
theorem step_settings {rules : UrlRules} {s t : State} {event : Event}
    (stepped : step rules s event = some t) :
    t.maxPending = s.maxPending ∧
      ((∀ update, event ≠ .update update) → t.proxies = s.proxies) := by
  cases event with
  | fetch uri completed =>
      have fetched := s.fetch_cases rules uri completed
      rw [Option.some.inj stepped] at fetched
      cases fetched <;> exact ⟨rfl, fun _ => rfl⟩
  | update update =>
      cases stepped
      exact ⟨rfl, fun other => (other update rfl).elim⟩
  | stop graceful completed =>
      cases stepped
      simp only [State.stop, StopOp.loop]
      split <;> exact ⟨rfl, fun _ => rfl⟩
  | stopResumed op ec completed =>
      simp only [step] at stepped
      split at stepped
      · cases stepped
      · split at stepped
        · cases stepped
          simp only [StopOp.resume, StopOp.loop]
          split <;> exact ⟨rfl, fun _ => rfl⟩
        · cases stepped
  | stopCalled op ec =>
      simp only [step] at stepped
      split at stepped
      · cases stepped
        exact ⟨rfl, fun _ => rfl⟩
      · cases stepped
  | work index =>
      simp only [step, State.work] at stepped
      split at stepped
      · cases stepped
      · split at stepped
        · cases stepped
        · cases stepped
          exact ⟨rfl, fun _ => rfl⟩
  | post index handler isOpen =>
      obtain ⟨sessions, rfl⟩ := State.advance_sessions stepped
      exact ⟨rfl, fun _ => rfl⟩
  | resume index operation ec isOpen =>
      obtain ⟨sessions, rfl⟩ := State.advance_sessions stepped
      exact ⟨rfl, fun _ => rfl⟩

def Event.NoStop : Event → Prop
  | .stop _ _ => False
  | _ => True

instance : (event : Event) → Decidable event.NoStop
  | .stop _ _ => inferInstanceAs (Decidable False)
  | .fetch _ _ | .update _ | .stopResumed _ _ _ | .stopCalled _ _ | .work _
  | .post _ _ _ | .resume _ _ _ _ => inferInstanceAs (Decidable True)

/-- A client that was never stopped has no stop in progress. -/
theorem reached_unstopped {rules : UrlRules} {maxPending : Nat} {s : State}
    (reached : (machine rules maxPending).ReachedBy
      (fun _ event => event.NoStop) s) : s.stopping = [] := by
  induction reached with
  | start => rfl
  | @step before after event _ noStop stepped unstopped =>
      cases event with
      | fetch uri completed =>
          have fetched := before.fetch_cases rules uri completed
          rw [Option.some.inj stepped] at fetched
          cases fetched <;> exact unstopped
      | update update =>
          cases stepped
          exact unstopped
      | stop graceful completed => exact noStop.elim
      | stopResumed op ec completed =>
          simp only [machine, step] at stepped
          split at stepped
          · cases stepped
          · simp [unstopped] at stepped
      | stopCalled op ec =>
          simp only [machine, step] at stepped
          split at stepped
          · cases stepped
            exact unstopped
          · cases stepped
      | work index =>
          simp only [machine, step, State.work] at stepped
          split at stepped
          · cases stepped
          · split at stepped
            · cases stepped
            · cases stepped
              exact unstopped
      | post index handler isOpen =>
          obtain ⟨sessions, rfl⟩ := State.advance_sessions stepped
          exact unstopped
      | resume index operation ec isOpen =>
          obtain ⟨sessions, rfl⟩ := State.advance_sessions stepped
          exact unstopped

/-- Without a stop of the client its sessions see pushes only. -/
theorem reached_pushOnly {rules : UrlRules} {maxPending : Nat} {s : State}
    (reached : (machine rules maxPending).ReachedBy
      (fun _ event => event.NoStop) s) :
    ∀ hosted ∈ s.sessions,
      hosted.RunsBy (fun event => event.PushOnly) := by
  induction reached with
  | start => simp [machine]
  | @step before after event earlier noStop stepped runs =>
      refine step_runsBy ?_ ?_ runs stepped
      · intro work issued
        cases work with
        | push fetch => trivial
        | stop graceful op =>
            cases event with
            | stop => exact noStop.elim
            | stopResumed resumed ec completed =>
                simp only [machine, step] at stepped
                split at stepped
                · cases stepped
                · simp [reached_unstopped earlier] at stepped
            | _ => exact issued.elim
      · intro inner notPush notStart notStop
        cases inner with
        | push => exact (notPush rfl).elim
        | start => exact (notStart rfl).elim
        | stop graceful => exact (notStop graceful rfl).elim
        | post handler isOpen => trivial
        | resume operation ec isOpen => trivial

end Fetchpp.Client

import Fetchpp.Client.Escaping
import Fetchpp.Client.Routing
import Fetchpp.Session.Resting
import Fetchpp.Session.Serving

/-!
# Every fetch is accounted for

A fetch is handed to one session, or it leaves with an exception.  A session
is handed its fetches in the order in which they were made, and posts the
handler of each of them once at most; what it accepts it answers in that order.
-/

namespace Fetchpp.Client

open Http Lib

/-- A handler runs on the strand of one session. -/
def Event.isInner : Event → Bool
  | .work _ | .post _ _ _ | .resume _ _ _ _ => true
  | _ => false

inductive State.Stepped (rules : UrlRules) (s : State) :
    Event → State → Prop where
  | fetch {uri : Url} {completed : Bool} {t : State} :
      s.Fetched rules uri completed t →
      Stepped rules s (.fetch uri completed) t
  | update (update : Update) :
      Stepped rules s (.update update)
        { s with proxies := update.apply s.proxies }
  | stop (graceful : GracefulShutdown) (completed : Bool) :
      Stepped rules s (.stop graceful completed) (s.stop graceful completed)
  | stopResumed {op : StopOp} {ec : Option ErrorCode} {hosted : Hosted}
      (completed : Bool) :
      op ∈ s.stopping →
      s.sessions[op.begin_]? = some hosted →
      hosted.StopCalled op.op ec →
      Stepped rules s (.stopResumed op ec completed) (op.resume completed ec s)
  | stopCalled {op : Nat} {ec : Option ErrorCode} :
      (op, ec) ∈ s.stopPosts →
      Stepped rules s (.stopCalled op ec) (s.callStop op ec)
  | inner {event : Event} {index : Nat} {hosted after : Hosted} :
      event.isInner = true →
      s.sessions[index]? = some hosted →
      Hosted.Change (fun _ => False) hosted after →
      Stepped rules s event
        { s with sessions := s.sessions.set index after }

theorem State.advance_stepped {rules : UrlRules} {index : Nat}
    {inner : Session.Event} {event : Event} {s t : State}
    (isInner : event.isInner = true) (notPush : inner ≠ .push)
    (notStart : inner ≠ .start) (notStop : ∀ graceful, inner ≠ .stop graceful)
    (advanced : s.advance index inner = some t) :
    s.Stepped rules event t := by
  unfold State.advance at advanced
  cases found : s.sessions[index]? with
  | none => simp [found] at advanced
  | some hosted =>
      cases stepped : Session.step hosted.session inner with
      | none => simp [found, stepped] at advanced
      | some next =>
          simp only [found, stepped, Option.some.injEq] at advanced
          subst advanced
          exact .inner isInner found (.advance notPush notStart notStop stepped)

theorem stepped_cases {rules : UrlRules} {s t : State} {event : Event}
    (stepped : step rules s event = some t) : s.Stepped rules event t := by
  cases event with
  | fetch uri completed =>
      have fetched := s.fetch_cases rules uri completed
      rw [Option.some.inj stepped] at fetched
      exact .fetch fetched
  | update update =>
      cases stepped
      exact .update update
  | stop graceful completed =>
      cases stepped
      exact .stop graceful completed
  | stopResumed op ec completed =>
      simp only [step] at stepped
      split at stepped
      case h_1 => cases stepped
      case h_2 hosted found =>
        split at stepped
        case isTrue waits =>
          cases stepped
          exact .stopResumed completed waits.1 found waits.2
        case isFalse => cases stepped
  | stopCalled op ec =>
      simp only [step] at stepped
      split at stepped
      case isTrue posted =>
        cases stepped
        exact .stopCalled posted
      case isFalse => cases stepped
  | work index =>
      simp only [step, State.work] at stepped
      split at stepped
      case h_1 => cases stepped
      case h_2 hosted found =>
        split at stepped
        case h_1 => cases stepped
        case h_2 queued =>
          cases stepped
          exact .inner rfl found (.work queued)
  | post index handler isOpen =>
      exact State.advance_stepped rfl (by simp) (by simp) (by simp) stepped
  | resume index operation ec isOpen =>
      exact State.advance_stepped rfl (by simp) (by simp) (by simp) stepped

theorem fetched_or {rules : UrlRules} {s t : State} {event : Event}
    (stepped : step rules s event = some t) :
    (∃ uri completed, event = .fetch uri completed ∧
      s.Fetched rules uri completed t) ∨
    ∀ uri completed, event ≠ .fetch uri completed := by
  cases event with
  | fetch uri completed =>
      have fetched := s.fetch_cases rules uri completed
      rw [Option.some.inj stepped] at fetched
      exact .inl ⟨uri, completed, rfl, fetched⟩
  | _ => exact .inr (by simp)

theorem State.Stepped.unfetched {rules : UrlRules} {s t : State} {event : Event}
    (stepped : s.Stepped rules event t)
    (notFetch : ∀ uri completed, event ≠ .fetch uri completed) :
    t.fetches = s.fetches ∧ t.escaped = s.escaped := by
  cases stepped with
  | fetch => exact (notFetch _ _ rfl).elim
  | update update => exact ⟨rfl, rfl⟩
  | stop graceful completed =>
      simp only [State.stop, StopOp.loop]
      split <;> exact ⟨rfl, rfl⟩
  | stopResumed completed member found called =>
      simp only [StopOp.resume, StopOp.loop]
      split <;> exact ⟨rfl, rfl⟩
  | stopCalled posted => exact ⟨rfl, rfl⟩
  | inner isInner found changed => exact ⟨rfl, rfl⟩

/-- The pushes and stops of the session are those of the client. -/
structure Hosted.Counted (hosted : Hosted) : Prop where
  pushed : hosted.session.core.pushes = hosted.pushed.length
  stopped : hosted.session.core.stops = hosted.stopped.length

namespace Hosted.Counted

variable {hosted : Hosted}

theorem fresh (isNew : hosted.Fresh) : hosted.Counted := by
  obtain ⟨endpoint, rfl⟩ := isNew
  exact ⟨rfl, rfl⟩

theorem execute (counted : hosted.Counted) (work : Work) :
    (hosted.execute work).Counted := by
  have counts := Session.step_counts (hosted.execute_step work)
  have pushed := counted.pushed
  have stopped := counted.stopped
  cases work with
  | push fetch =>
      refine ⟨?_, counts.stops.trans stopped⟩
      rw [counts.pushes, pushed]
      simp [Hosted.execute, Work.event, Session.Event.pushes]
  | stop graceful op =>
      refine ⟨counts.pushes.trans pushed, ?_⟩
      rw [counts.stops, stopped]
      simp [Hosted.execute, Work.event, Session.Event.stops]

theorem change {Issues : Work → Prop} {after : Hosted}
    (counted : hosted.Counted)
    (changed : Hosted.Change Issues hosted after) : after.Counted := by
  cases changed with
  | @dispatch work completed issues =>
      unfold Hosted.dispatch
      split
      · exact ⟨counted.pushed, counted.stopped⟩
      · exact counted.execute work
  | @work work rest queued =>
      have remaining : ({ hosted with queued := rest } : Hosted).Counted :=
        ⟨counted.pushed, counted.stopped⟩
      exact remaining.execute work
  | @advance event next notPush notStart notStop stepped =>
      have counts := Session.step_counts stepped
      have pushes : event.pushes = 0 := by
        cases event <;> first | rfl | exact (notPush rfl).elim
      have stops : event.stops = 0 := by
        cases event <;> first | rfl | exact (notStop _ rfl).elim
      refine ⟨?_, ?_⟩
      · simp only [counts.pushes, pushes, counted.pushed, Nat.add_zero]
      · simp only [counts.stops, stops, counted.stopped, Nat.add_zero]

end Hosted.Counted

theorem reached_counted {rules : UrlRules} {maxPending : Nat} {s : State}
    (reached : (machine rules maxPending).Reached s) :
    ∀ hosted ∈ s.sessions, hosted.Counted := by
  induction reached with
  | start => simp [machine]
  | step _ _ stepped counted =>
      exact (step_touches stepped).all counted (fun _ isNew => .fresh isNew)
        (fun _ _ changed before => before.change changed)

/-- The handlers the session has posted for fetches, and their errors. -/
def Hosted.answers (hosted : Hosted) : List (Fetch × Option ErrorCode) :=
  hosted.session.core.posted.filterMap fun posting =>
    hosted.pushed[posting.push]?.map fun fetch => (fetch, posting.ec)

/-- The fetches that were accepted and answered, oldest answer first. -/
def Hosted.served (hosted : Hosted) : List Fetch :=
  pick hosted.pushed hosted.session.core.served

theorem Hosted.answers_pick (hosted : Hosted) :
    hosted.answers.map Prod.fst =
      pick hosted.pushed (hosted.session.core.posted.map Session.Posting.push) := by
  simp only [answers, pick, List.map_filterMap, List.filterMap_map,
    Option.map_map]
  exact List.filterMap_congr fun posting _ => by
    simp [Function.comp_def]

theorem Hosted.answers_subperm {hosted : Hosted} (counted : hosted.Counted)
    (reached : Session.machine.Reached hosted.session) :
    (hosted.answers.map Prod.fst).Subperm hosted.pushed := by
  have known := (Session.reached_invariant reached).posted_subperm
  rw [counted.pushed] at known
  rw [Hosted.answers_pick]
  exact pick_subperm known

theorem Hosted.served_sublist {hosted : Hosted} (counted : hosted.Counted)
    (reached : Session.machine.Reached hosted.session) :
    hosted.served.Sublist hosted.pushed := by
  have invariant := Session.reached_invariant reached
  refine pick_sublist (Session.reached_served_sorted reached) ?_
  intro push served
  have accepted := invariant.served_prefix.subset served
  have known := (invariant.numbered.known push).mp
    (List.mem_append_left _ accepted)
  rwa [counted.pushed] at known

theorem Hosted.queued_of_idle {completed : Bool} {hosted : Hosted}
    (idle : ¬hosted.busy completed = true) : hosted.queued = [] := by
  simp only [busy, Bool.or_eq_true, Bool.not_eq_true', not_or,
    Bool.not_eq_false, List.isEmpty_iff] at idle
  exact idle.1.2

theorem Hosted.handed_push (completed : Bool) (fetch : Fetch)
    (hosted : Hosted) :
    (hosted.dispatch completed (.push fetch)).handed =
      hosted.handed ++ [fetch] := by
  unfold Hosted.dispatch
  split
  case isTrue => simp [Hosted.handed]
  case isFalse idle =>
    simp [Hosted.handed, Hosted.execute, Hosted.queued_of_idle idle]

theorem Hosted.handed_inner {hosted after : Hosted}
    (changed : Hosted.Change (fun _ => False) hosted after) :
    after.handed = hosted.handed := by
  cases changed with
  | dispatch completed issues => exact issues.elim
  | @work work rest queued =>
      cases work <;> simp [Hosted.handed, Hosted.execute, queued]
  | advance => rfl

theorem Hosted.handed_change {event : Event} {hosted after : Hosted}
    (notFetch : ∀ uri completed, event ≠ .fetch uri completed)
    (changed : Hosted.Change event.Issues hosted after) :
    after.handed = hosted.handed := by
  cases changed with
  | @dispatch work completed issues =>
      cases work with
      | stop graceful op => exact hosted.handed_stop graceful op completed
      | push fetch =>
          cases event with
          | fetch uri completed => exact (notFetch uri completed rfl).elim
          | _ => exact issues.elim
  | work queued => exact Hosted.handed_inner (.work queued)
  | advance => rfl

theorem Hosted.Change.endpoint {Issues : Work → Prop} {hosted after : Hosted}
    (changed : Hosted.Change Issues hosted after) :
    after.endpoint = hosted.endpoint := by
  cases changed with
  | @dispatch work completed issues =>
      exact hosted.dispatch_endpoint completed work
  | work queued => exact Hosted.execute_endpoint _ _
  | advance => rfl

/-- The fetches of a session in the order in which they were made, all of them
among the first `fetches`. -/
structure Hosted.InOrder (fetches : Nat) (hosted : Hosted) : Prop where
  sorted : (hosted.handed.map Fetch.number).Pairwise (· < ·)
  known : ∀ fetch ∈ hosted.handed, fetch.number < fetches

namespace Hosted.InOrder

variable {fetches : Nat} {hosted : Hosted}

theorem fresh (isNew : hosted.Fresh) : hosted.InOrder fetches := by
  obtain ⟨endpoint, rfl⟩ := isNew
  exact ⟨by simp [Hosted.handed], by simp [Hosted.handed]⟩

theorem of_handed {after : Hosted} (inOrder : hosted.InOrder fetches)
    (handed : after.handed = hosted.handed) : after.InOrder fetches := by
  refine ⟨?_, ?_⟩
  · rw [handed]
    exact inOrder.sorted
  · rw [handed]
    exact inOrder.known

theorem later (inOrder : hosted.InOrder fetches) :
    hosted.InOrder (fetches + 1) :=
  ⟨inOrder.sorted, fun fetch member =>
    Nat.lt_succ_of_lt (inOrder.known fetch member)⟩

theorem push (inOrder : hosted.InOrder fetches) {fetch : Fetch}
    (number : fetch.number = fetches) {after : Hosted}
    (handed : after.handed = hosted.handed ++ [fetch]) :
    after.InOrder (fetches + 1) := by
  refine ⟨?_, ?_⟩
  · rw [handed, List.map_append]
    refine List.pairwise_append.mpr ⟨inOrder.sorted, by simp, ?_⟩
    intro earlier member last single
    obtain ⟨other, inHanded, rfl⟩ := List.mem_map.mp member
    rw [List.mem_singleton.mp single, number]
    exact inOrder.known other inHanded
  · intro other member
    rw [handed] at member
    rcases List.mem_append.mp member with earlier | single
    · exact inOrder.later.known other earlier
    · rw [List.mem_singleton.mp single, number]
      exact Nat.lt_succ_self _

end Hosted.InOrder

theorem State.Fetched.inOrder {rules : UrlRules} {uri : Url}
    {completed : Bool} {s t : State}
    (fetched : s.Fetched rules uri completed t)
    (inOrder : ∀ hosted ∈ s.sessions, hosted.InOrder s.fetches) :
    ∀ hosted ∈ t.sessions, hosted.InOrder t.fetches := by
  cases fetched with
  | escaped exception threw =>
      exact fun hosted member => (inOrder hosted member).later
  | known proxy index hosted selected built search found room =>
      intro other member
      rcases List.mem_or_eq_of_mem_set member with kept | changed
      · exact (inOrder other kept).later
      · subst changed
        exact (inOrder hosted (List.mem_of_getElem? found)).push rfl
          (hosted.handed_push completed _)
  | created proxy endpoint selected built search =>
      intro other member
      rcases List.mem_append.mp member with kept | added
      · exact (inOrder other kept).later
      · rw [List.mem_singleton.mp added]
        have empty : ({ endpoint := endpoint } : Hosted).InOrder s.fetches :=
          .fresh ⟨endpoint, rfl⟩
        exact empty.push rfl rfl

theorem reached_inOrder {rules : UrlRules} {maxPending : Nat} {s : State}
    (reached : (machine rules maxPending).Reached s) :
    ∀ hosted ∈ s.sessions, hosted.InOrder s.fetches := by
  induction reached with
  | start => simp [machine]
  | @step before after event _ _ stepped inOrder =>
      rcases fetched_or stepped with ⟨uri, completed, rfl, fetched⟩ | notFetch
      · exact fetched.inOrder inOrder
      · rw [((stepped_cases stepped).unfetched notFetch).1]
        exact (step_touches stepped).all inOrder (fun _ isNew => .fresh isNew)
          (fun _ _ changed holds =>
            holds.of_handed (Hosted.handed_change notFetch changed))

/-- The fetches that were handed over, and those that left. -/
def State.numbers (s : State) : List Nat :=
  s.handed.map Fetch.number ++ s.escaped.map Prod.fst

theorem State.Fetched.numbers {rules : UrlRules} {uri : Url}
    {completed : Bool} {s t : State}
    (fetched : s.Fetched rules uri completed t) :
    t.fetches = s.fetches + 1 ∧
      t.numbers.Perm (s.numbers ++ [s.fetches]) := by
  have handed : ∀ (proxy : Option Proxy) (later : List Fetch),
      later.Perm (⟨s.fetches, uri, proxy⟩ :: s.handed) →
      (later.map Fetch.number ++ s.escaped.map Prod.fst).Perm
        (s.numbers ++ [s.fetches]) := by
    intro proxy later perm
    refine ((perm.map Fetch.number).append_right _).trans ?_
    exact (List.perm_append_singleton s.fetches s.numbers).symm
  cases fetched with
  | escaped exception threw =>
      refine ⟨rfl, .of_eq ?_⟩
      simp [State.numbers, State.handed]
  | known proxy index hosted selected built search found room =>
      exact ⟨rfl, handed proxy _
        (handed_set found (hosted.handed_dispatch completed _))⟩
  | created proxy endpoint selected built search =>
      refine ⟨rfl, handed proxy _ ?_⟩
      simp [State.handed, Hosted.handed, Hosted.execute,
        List.perm_append_singleton]

theorem reached_numbers {rules : UrlRules} {maxPending : Nat} {s : State}
    (reached : (machine rules maxPending).Reached s) :
    s.numbers.Perm (List.range s.fetches) := by
  induction reached with
  | start => exact .rfl
  | @step before after event _ _ stepped numbered =>
      rcases fetched_or stepped with ⟨uri, completed, rfl, fetched⟩ | notFetch
      · obtain ⟨counted, numbers⟩ := fetched.numbers
        rw [counted, List.range_succ]
        exact numbers.trans (numbered.append_right _)
      · obtain ⟨counted, left⟩ := (stepped_cases stepped).unfetched notFetch
        have handed : after.handed.Perm before.handed := by
          refine (step_touches stepped).flatMap_perm ?_
            (fun _ _ changed => .of_eq (Hosted.handed_change notFetch changed))
          rintro component ⟨endpoint, rfl⟩
          rfl
        rw [counted]
        refine List.Perm.trans ?_ numbered
        rw [State.numbers, State.numbers, left]
        exact (handed.map Fetch.number).append_right _

/-- What is known of the fetches of a client. -/
structure State.Accounted (s : State) : Prop where
  /-- each fetch was handed to one session, once, or has left -/
  handed : s.numbers.Perm (List.range s.fetches)
  /-- a session is handed its fetches in order -/
  inOrder : ∀ hosted ∈ s.sessions,
    (hosted.handed.map Fetch.number).Pairwise (· < ·)
  /-- it answers no others, and each of them once at most -/
  answered : ∀ hosted ∈ s.sessions,
    (hosted.answers.map Prod.fst).Subperm hosted.pushed
  /-- those it has accepted are answered in order -/
  served : ∀ hosted ∈ s.sessions, hosted.served.Sublist hosted.handed

/-- However the steps of a client are ordered, no fetch is lost, none is handed
to two sessions or answered twice, and none overtakes another on a session. -/
theorem reached_accounted {rules : UrlRules} {maxPending : Nat} {s : State}
    (reached : (machine rules maxPending).Reached s) : s.Accounted where
  handed := reached_numbers reached
  inOrder := fun hosted member => (reached_inOrder reached hosted member).sorted
  answered := fun hosted member =>
    Hosted.answers_subperm (reached_counted reached hosted member)
      (reached_runs reached hosted member).reached.reached
  served := fun hosted member =>
    (Hosted.served_sublist (reached_counted reached hosted member)
      (reached_runs reached hosted member).reached.reached).trans
        (List.sublist_append_left _ _)

/-- A fetch that is answered, one whose scheme is unknown, and one that is
queued behind the first. -/
def answeredRun : List Event :=
  [.fetch localUrl false, .fetch { localUrl with scheme := "ftp" } false,
    .fetch localUrl false, .post 0 .processTask false, .work 0,
    .resume 0 (.connect (.queue ⟨0, none, .connected, true⟩)) none true,
    .resume 0 (.exchange ⟨0, none, .exchanged, true⟩) none true]

theorem accounted_of_answeredRun :
    ∃ s : State, s.numbers = [0, 2, 1] ∧
      s.sessions.map Hosted.answers = [[(⟨0, localUrl, none⟩, none)]] ∧
      s.Accounted := by
  have executed : ((machine specialRules 10).run (machine specialRules 10).start
      answeredRun).map (fun s => (s.numbers, s.sessions.map Hosted.answers)) =
      some ([0, 2, 1], [[(⟨0, localUrl, none⟩, none)]]) := by
    decide +kernel
  obtain ⟨s, ran, facts⟩ := Option.map_eq_some_iff.mp executed
  obtain ⟨numbers, answers⟩ := Prod.mk.inj facts
  exact ⟨s, numbers, answers,
    reached_accounted (Machine.reached_of_run answeredRun ran)⟩

end Fetchpp.Client

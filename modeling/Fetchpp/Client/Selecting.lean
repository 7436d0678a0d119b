import Fetchpp.Client.Hosting

/-!
# Which session a fetch gets

`get_session` looks at the endpoints and at the pending tasks, not at the
running flag.  A session that gave up on a request stays in the deque with an
empty queue, so that it is the one that is selected; the fetch is refused then.
-/

namespace Fetchpp.Client

open Http Lib

def State.selected (endpoint : SessionEndpoint) (s : State) : Option Hosted :=
  let (after, index) := s.getSession endpoint
  after.sessions[index]?

/-- A `push_op` that runs now is not refused. -/
def Hosted.Accepts (hosted : Hosted) : Prop :=
  (Session.pushOp hosted.session.core).1.refused = hosted.session.core.refused

/-- The session a fetch to the endpoint gets is running and accepts it. -/
def State.Offers (endpoint : SessionEndpoint) (s : State) : Prop :=
  ∃ hosted, s.selected endpoint = some hosted ∧
    hosted.running = true ∧ hosted.Accepts

theorem State.selected_known {endpoint : SessionEndpoint} {s : State}
    {index : Nat} (search : s.findSession endpoint = some index) :
    s.selected endpoint = s.sessions[index]? := by
  simp [selected, getSession, search]

theorem State.selected_new {endpoint : SessionEndpoint} {s : State}
    (search : s.findSession endpoint = none) :
    s.selected endpoint = some { endpoint := endpoint } := by
  simp [selected, getSession, search]

theorem Hosted.accepts_iff (hosted : Hosted) :
    hosted.Accepts ↔ hosted.running = true := by
  unfold Hosted.Accepts
  cases running : hosted.session.core.running with
  | true =>
      simp [Session.pushOp_running running, Session.Core.pushTask,
        Hosted.running, running]
  | false =>
      simp [Session.pushOp_stopped running, Session.Core.postHandler,
        Hosted.running, running]

theorem reached_running_iff {rules : UrlRules} {maxPending : Nat} {s : State}
    (reached : (machine rules maxPending).ReachedBy
      (fun _ event => event.NoStop) s)
    {hosted : Hosted} (member : hosted ∈ s.sessions) :
    hosted.running = true ↔ hosted.session.core.Unfailed :=
  (Session.reached_failing
    (reached_pushOnly reached hosted member).reached).flag

/-- In a client that is not stopped a fetch gets a running session exactly if
no request has failed on the session that is found for it; and a push that was
queued on a session is accepted exactly if no request has failed there. -/
theorem reached_offers_iff {rules : UrlRules} {maxPending : Nat} {s : State}
    (reached : (machine rules maxPending).ReachedBy
      (fun _ event => event.NoStop) s) :
    (∀ endpoint, s.Offers endpoint ↔
      ∀ index hosted, s.findSession endpoint = some index →
        s.sessions[index]? = some hosted → hosted.session.core.Unfailed) ∧
    (∀ hosted ∈ s.sessions,
      hosted.Accepts ↔ hosted.session.core.Unfailed) := by
  constructor
  · intro endpoint
    cases search : s.findSession endpoint with
    | none =>
        have offered : s.Offers endpoint :=
          ⟨_, State.selected_new search, rfl, rfl⟩
        simp [offered]
    | some index =>
        obtain ⟨hosted, found, _, _⟩ := State.findSession_eq_some search
        have flag := reached_running_iff reached
          (List.mem_of_getElem? found)
        constructor
        · rintro ⟨hosted, selected, running, _⟩ other picked same at_
          cases same
          rw [State.selected_known search, found] at selected
          cases selected
          rw [found] at at_
          cases at_
          exact flag.mp running
        · intro unfailed
          have running := flag.mpr (unfailed index _ rfl found)
          exact ⟨_, (State.selected_known search).trans found, running,
            (Hosted.accepts_iff _).mpr running⟩
  · intro hosted member
    exact (Hosted.accepts_iff hosted).trans (reached_running_iff reached member)

/-- A fetch whose connect is refused. -/
def refusedRun : List Event :=
  [.fetch localUrl false,
    .post 0 .processTask false,
    .resume 0 (.connect (.queue { task := 0, coro := .connected }))
      (some .connectionRefused) false,
    .post 0 .advanceTask false]

def localEndpoint : SessionEndpoint := .plain ⟨"localhost", 80⟩

/-- After a fetch that is still connecting the next one is accepted. -/
theorem offers_of_connectingRun :
    ∃ s, (machine specialRules 10).ReachedBy (fun _ event => event.NoStop) s ∧
      s.findSession localEndpoint = some 0 ∧ s.Offers localEndpoint := by
  have executed : ((machine specialRules 10).runWhere
      (fun _ event => event.NoStop) (machine specialRules 10).start
      (refusedRun.take 2)).map (fun s => (s.findSession localEndpoint,
        s.sessions.map (fun hosted => hosted.session.core.posted))) =
      some (some 0, [[]]) := by
    decide +kernel
  obtain ⟨s, ran, facts⟩ := Option.map_eq_some_iff.mp executed
  obtain ⟨search, posted⟩ := Prod.mk.inj facts
  have reached := Machine.reachedBy_of_runWhere _ ran
  refine ⟨s, reached, search, (reached_offers_iff reached).1 _ |>.mpr ?_⟩
  intro index hosted _ found posting member
  have inList : hosted.session.core.posted ∈
      s.sessions.map (fun hosted => hosted.session.core.posted) :=
    List.mem_map_of_mem (List.mem_of_getElem? found)
  rw [posted] at inList
  simp [List.mem_singleton.mp inList] at member

/-- After a refused connect the same session is found again, and it does not
run. -/
theorem refusedRun_not_offers :
    ¬∀ s, (machine specialRules 10).ReachedBy (fun _ event => event.NoStop) s →
      ∀ endpoint, s.Offers endpoint := by
  intro offers
  have executed : ((machine specialRules 10).runWhere
      (fun _ event => event.NoStop) (machine specialRules 10).start
      refusedRun).map (fun s => (s.selected localEndpoint).map Hosted.running) =
      some (some false) := by
    decide +kernel
  obtain ⟨s, ran, stopped⟩ := Option.map_eq_some_iff.mp executed
  have reached := Machine.reachedBy_of_runWhere _ ran
  obtain ⟨hosted, selected, running, _⟩ := offers s reached localEndpoint
  simp [selected, running] at stopped

end Fetchpp.Client

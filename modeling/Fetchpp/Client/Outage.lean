import Fetchpp.Client.Reporting
import Fetchpp.Client.Selecting
import Fetchpp.Client.Stopping

/-!
# Endpoints that stay down

Nothing starts a session of a client again, and `get_session` takes the first
session of an endpoint that has room, running or not.  A session that has given
up and was drained is in the way of all later ones, so that no fetch to its
endpoint is ever accepted again.
-/

namespace Fetchpp.Client

open Http Lib

/-- The session at the index has room, and neither it nor one before it runs.
-/
structure State.Blocked (endpoint : SessionEndpoint) (index : Nat)
    (s : State) : Prop where
  room : ∃ hosted, s.sessions[index]? = some hosted ∧
    hosted.endpoint = endpoint ∧ hosted.pendingTasks < s.maxPending
  stopped : ∀ (first : Nat) (hosted : Hosted), first ≤ index →
    s.sessions[first]? = some hosted → hosted.endpoint = endpoint →
    hosted.running = false

/-- Fetches from this number on are answered with `operation_aborted`. -/
def Hosted.Refuses (since : Nat) (hosted : Hosted) : Prop :=
  ∀ answer ∈ hosted.answers, since ≤ answer.1.number →
    answer.2 = some .operationAborted

/-- The session does not run and has accepted earlier fetches only. -/
structure Hosted.Idles (since : Nat) (hosted : Hosted) : Prop where
  stopped : hosted.running = false
  spared : ∀ push ∈ hosted.session.core.accepted, ∀ fetch,
    hosted.pushed[push]? = some fetch → fetch.number < since

theorem Hosted.accepted_inside {hosted : Hosted} (counted : hosted.Counted)
    (reached : Session.machine.Reached hosted.session) {push : Nat}
    (accepted : push ∈ hosted.session.core.accepted) :
    push < hosted.pushed.length := by
  have numbered := (Session.reached_invariant reached).numbered
  have known := (numbered.known push).mp (List.mem_append_left _ accepted)
  rwa [counted.pushed] at known

namespace Hosted.Idles

variable {since : Nat} {hosted after : Hosted}

theorem execute (idles : hosted.Idles since)
    (inside : ∀ push ∈ hosted.session.core.accepted,
      push < hosted.pushed.length)
    (work : Work) : (hosted.execute work).Idles since := by
  have accepted := Session.step_accepted (hosted.execute_step work)
    (fun _ => idles.stopped)
  refine ⟨hosted.execute_stopped work idles.stopped, ?_⟩
  rw [accepted]
  intro push member fetch known
  refine idles.spared push member fetch ?_
  cases work with
  | push pushed =>
      rw [← known]
      exact (List.getElem?_append_left (inside push member)).symm
  | stop graceful op => exact known

theorem change {Issues : Work → Prop} (idles : hosted.Idles since)
    (inside : ∀ push ∈ hosted.session.core.accepted,
      push < hosted.pushed.length)
    (changed : Hosted.Change Issues hosted after) : after.Idles since := by
  cases changed with
  | @dispatch work completed issues =>
      unfold Hosted.dispatch
      split
      · exact ⟨idles.stopped, idles.spared⟩
      · exact idles.execute inside work
  | @work work rest queued =>
      have remaining : ({ hosted with queued := rest } : Hosted).Idles since :=
        ⟨idles.stopped, idles.spared⟩
      exact remaining.execute inside work
  | advance notPush notStart notStop stepped =>
      have accepted := Session.step_accepted stepped
        (fun push => (notPush push).elim)
      refine ⟨Session.State.step_stopped stepped notStart idles.stopped, ?_⟩
      rw [accepted]
      exact idles.spared

theorem refuses (idles : hosted.Idles since)
    (reached : Session.machine.Reached hosted.session) :
    hosted.Refuses since := by
  intro answer member late
  obtain ⟨posting, posted, answered⟩ := List.mem_filterMap.mp member
  obtain ⟨fetch, known, rfl⟩ := Option.map_eq_some_iff.mp answered
  have invariant := Session.reached_invariant reached
  have unaccepted : posting.push ∉ hosted.session.core.accepted := by
    intro accepted
    have early := idles.spared posting.push accepted fetch known
    exact Nat.not_lt.mpr late early
  have refusal : posting ∈ hosted.session.core.refusals := by
    refine List.mem_filter.mpr ⟨posted, ?_⟩
    by_contra answer
    refine unaccepted (invariant.served_prefix.subset (List.mem_map.mpr
      ⟨posting, List.mem_filter.mpr ⟨posted, ?_⟩, rfl⟩))
    simpa using answer
  rw [invariant.numbered.refusals] at refusal
  obtain ⟨push, _, rfl⟩ := List.mem_map.mp refusal
  rfl

end Hosted.Idles

theorem Hosted.Change.pendingTasks_le {Issues : Work → Prop}
    {hosted after : Hosted} (changed : Hosted.Change Issues hosted after)
    (stopped : hosted.running = false) :
    after.pendingTasks ≤ hosted.pendingTasks := by
  have executed : ∀ (work : Work) (before : Hosted), before.running = false →
      (before.execute work).pendingTasks = before.pendingTasks := by
    intro work before stopped
    cases work with
    | push fetch =>
        have refused : before.session.core.running = false := stopped
        simp [Hosted.execute, Hosted.pendingTasks,
          Session.Core.pendingTasks, Session.pushOp_stopped refused,
          Session.Core.postHandler]
    | stop graceful op =>
        simp [Hosted.execute, Hosted.pendingTasks, Session.Core.pendingTasks,
          Session.stopOp, Session.Core.setRunning]
  cases changed with
  | @dispatch work completed issues =>
      unfold Hosted.dispatch
      split
      · exact Nat.le_refl _
      · exact Nat.le_of_eq (executed work hosted stopped)
  | @work work rest queued =>
      have remaining : ({ hosted with queued := rest } : Hosted).running =
          false := stopped
      exact Nat.le_of_eq (executed work _ remaining)
  | advance notPush notStart notStop stepped =>
      obtain ⟨_, rfl⟩ := Session.step_eq stepped
      simp only [Hosted.pendingTasks, Session.Core.pendingTasks,
        Session.State.apply_core]
      exact Session.Event.outcome_tasks_le notPush _

/-- The sessions up to the index do not run, and those behind it are handed
nothing any more. -/
structure State.Outage (endpoint : SessionEndpoint) (index since : Nat)
    (s : State) : Prop where
  room : ∃ hosted, s.sessions[index]? = some hosted ∧
    hosted.endpoint = endpoint ∧ hosted.pendingTasks < s.maxPending
  front : ∀ (first : Nat) (hosted : Hosted), first ≤ index →
    s.sessions[first]? = some hosted → hosted.endpoint = endpoint →
    hosted.Idles since
  back : ∀ (later : Nat) (hosted : Hosted), index < later →
    s.sessions[later]? = some hosted → hosted.endpoint = endpoint →
    ∀ fetch ∈ hosted.handed, fetch.number < since

namespace State.Outage

variable {endpoint : SessionEndpoint} {index since : Nat} {s t : State}

theorem blocked (outage : s.Outage endpoint index since) :
    s.Blocked endpoint index where
  room := outage.room
  stopped := fun first hosted before found same =>
    (outage.front first hosted before found same).stopped

/-- `get_session` finds no session behind the one at the index. -/
theorem found_le (outage : s.Outage endpoint index since) :
    ∃ found, s.findSession endpoint = some found ∧ found ≤ index := by
  obtain ⟨hosted, at_, same, room⟩ := outage.room
  obtain ⟨inside, known⟩ := List.getElem?_eq_some_iff.mp at_
  cases search : s.findSession endpoint with
  | none =>
      have full := State.findSession_eq_none.mp search hosted
        (List.mem_of_getElem? at_) same
      exact (Nat.not_lt.mpr full room).elim
  | some found =>
      refine ⟨found, rfl, ?_⟩
      by_contra behind
      obtain ⟨_, _, before⟩ := List.findIdx?_eq_some_iff_getElem.mp search
      have passed := before index (by omega)
      rw [known, SessionEndpoint.beq_iff.mpr same.symm] at passed
      simp [room] at passed

theorem exchange {Issues : Work → Prop} {touched : Nat}
    {hosted after : Hosted} (outage : s.Outage endpoint index since)
    (found : s.sessions[touched]? = some hosted)
    (changed : Hosted.Change Issues hosted after)
    (accepted : ∀ push ∈ hosted.session.core.accepted,
      push < hosted.pushed.length)
    (handed : index < touched → hosted.endpoint = endpoint →
      after.handed = hosted.handed)
    (sessions : t.sessions = s.sessions.set touched after)
    (limit : t.maxPending = s.maxPending) :
    t.Outage endpoint index since := by
  have inside := (List.getElem?_eq_some_iff.mp found).1
  have same := changed.endpoint
  have others : ∀ (other : Nat), touched ≠ other →
      t.sessions[other]? = s.sessions[other]? := fun other differs => by
    rw [sessions, List.getElem?_set_ne differs]
  have here : t.sessions[touched]? = some after := by
    rw [sessions, List.getElem?_set_self inside]
  refine ⟨?_, ?_, ?_⟩
  · obtain ⟨last, at_, lastSame, room⟩ := outage.room
    rw [limit]
    by_cases hit : touched = index
    · subst hit
      rw [found] at at_
      cases at_
      have idles := outage.front touched hosted (Nat.le_refl _) found lastSame
      exact ⟨after, here, same.trans lastSame,
        Nat.lt_of_le_of_lt (changed.pendingTasks_le idles.stopped) room⟩
    · exact ⟨last, (others index hit).trans at_, lastSame, room⟩
  · intro first other before at_ otherSame
    by_cases hit : touched = first
    · subst hit
      rw [here] at at_
      cases at_
      have idles := outage.front touched hosted before found
        (same.symm.trans otherSame)
      exact idles.change accepted changed
    · rw [others first hit] at at_
      exact outage.front first other before at_ otherSame
  · intro later other behind at_ otherSame
    by_cases hit : touched = later
    · subst hit
      rw [here] at at_
      cases at_
      have was := same.symm.trans otherSame
      rw [handed behind was]
      exact outage.back touched hosted behind found was
    · rw [others later hit] at at_
      exact outage.back later other behind at_ otherSame

theorem append {created : Hosted} (outage : s.Outage endpoint index since)
    (other : created.endpoint ≠ endpoint)
    (sessions : t.sessions = s.sessions ++ [created])
    (limit : t.maxPending = s.maxPending) :
    t.Outage endpoint index since := by
  have old : ∀ (at_ : Nat) (hosted : Hosted), t.sessions[at_]? = some hosted →
      hosted.endpoint = endpoint → s.sessions[at_]? = some hosted := by
    intro at_ hosted found same
    rw [sessions] at found
    by_cases inside : at_ < s.sessions.length
    · rwa [List.getElem?_append_left inside] at found
    · have last := List.mem_of_getElem? found
      rw [List.getElem?_append_right (by omega)] at found
      have added := List.mem_singleton.mp (List.mem_of_getElem? found)
      exact (other (added ▸ same)).elim
  refine ⟨?_, ?_, ?_⟩
  · obtain ⟨hosted, at_, same, room⟩ := outage.room
    refine ⟨hosted, ?_, same, limit ▸ room⟩
    rw [sessions, List.getElem?_append_left
      (List.getElem?_eq_some_iff.mp at_).1]
    exact at_
  · exact fun first hosted before found same =>
      outage.front first hosted before (old first hosted found same) same
  · exact fun later hosted behind found same =>
      outage.back later hosted behind (old later hosted found same) same

theorem fetched {rules : UrlRules} {uri : Url} {completed : Bool}
    (outage : s.Outage endpoint index since)
    (accepted : ∀ hosted ∈ s.sessions, ∀ push ∈ hosted.session.core.accepted,
      push < hosted.pushed.length)
    (fetched : s.Fetched rules uri completed t) :
    t.Outage endpoint index since := by
  obtain ⟨first, search, before⟩ := outage.found_le
  cases fetched with
  | escaped exception threw => exact ⟨outage.room, outage.front, outage.back⟩
  | known proxy touched hosted selected built search' found room =>
      have dispatched : Hosted.Change (fun _ => True) hosted
          (hosted.dispatch completed (.push ⟨s.fetches, uri, proxy⟩)) :=
        .dispatch completed trivial
      refine outage.exchange found dispatched
        (accepted hosted (List.mem_of_getElem? found)) ?_ rfl rfl
      intro behind same
      rw [same, search] at search'
      cases search'
      omega
  | created proxy other selected built search' =>
      refine outage.append ?_ rfl rfl
      intro same
      rw [Hosted.execute_endpoint] at same
      rw [show other = endpoint from same, search] at search'
      cases search'

theorem looped {op : StopOp} {completed : Bool} {ec : Option ErrorCode}
    (outage : s.Outage endpoint index since)
    (accepted : ∀ hosted ∈ s.sessions, ∀ push ∈ hosted.session.core.accepted,
      push < hosted.pushed.length)
    (looped : op.Looped completed ec s t) : t.Outage endpoint index since := by
  cases looped with
  | ends uses last => exact ⟨outage.room, outage.front, outage.back⟩
  | asks uses hosted more found =>
      have dispatched : Hosted.Change (fun _ => True) hosted
          (hosted.dispatch completed (.stop op.graceful op.op)) :=
        .dispatch completed trivial
      exact outage.exchange found dispatched
        (accepted hosted (List.mem_of_getElem? found))
        (fun _ _ => hosted.handed_stop op.graceful op.op completed) rfl rfl

end State.Outage

variable {rules : UrlRules} {maxPending : Nat}

theorem step_outage {endpoint : SessionEndpoint} {index since : Nat}
    {s t : State} {event : Event}
    (reached : (machine rules maxPending).Reached s)
    (outage : s.Outage endpoint index since)
    (stepped : (machine rules maxPending).step s event = some t) :
    t.Outage endpoint index since := by
  have accepted : ∀ hosted ∈ s.sessions,
      ∀ push ∈ hosted.session.core.accepted, push < hosted.pushed.length :=
    fun hosted member _ => Hosted.accepted_inside
      (reached_counted reached hosted member)
      (reached_runs reached hosted member).reached.reached
  obtain ⟨sizes, walking⟩ := reached_walking reached
  have told : s.Stepped rules event t := stepped_cases stepped
  cases told with
  | fetch fetched => exact outage.fetched accepted fetched
  | update update => exact ⟨outage.room, outage.front, outage.back⟩
  | stop graceful completed =>
      have counted : ({ s with stops := s.stops + 1 } : State).Outage endpoint
          index since := ⟨outage.room, outage.front, outage.back⟩
      exact counted.looped accepted
        (StopOp.loop_cases (Nat.pos_of_ne_zero ∘ Ne.symm) completed none)
  | @stopResumed op ec hosted completed member found called =>
      have current := (walking.stopping op member).current
      have inside := (walking.stopping op member).inside
      have rest : ({ s with stopping := s.stopping.erase op }
          : State).Outage endpoint index since :=
        ⟨outage.room, outage.front, outage.back⟩
      refine rest.looped accepted (StopOp.loop_cases ?_ completed ec)
      intro more
      dsimp only at more ⊢
      omega
  | stopCalled posted => exact ⟨outage.room, outage.front, outage.back⟩
  | inner isInner found changed =>
      exact outage.exchange found changed
        (accepted _ (List.mem_of_getElem? found))
        (fun _ _ => Hosted.handed_inner changed) rfl rfl

/-- Where the sessions before the index do not run, the fetches so far are the
last ones that may have been accepted. -/
theorem State.Blocked.outage {endpoint : SessionEndpoint} {index : Nat}
    {s : State} (blocked : s.Blocked endpoint index)
    (reached : (machine rules maxPending).Reached s) :
    s.Outage endpoint index s.fetches where
  room := blocked.room
  front := by
    intro first hosted before found same
    refine ⟨blocked.stopped first hosted before found same, ?_⟩
    intro push _ fetch known
    have inOrder := reached_inOrder reached hosted (List.mem_of_getElem? found)
    exact inOrder.known fetch
      (List.mem_append_left _ (List.mem_of_getElem? known))
  back := fun later hosted _ found _ =>
    (reached_inOrder reached hosted (List.mem_of_getElem? found)).known

theorem Hosted.refuses_of_handed {since : Nat} {hosted : Hosted}
    (early : ∀ fetch ∈ hosted.handed, fetch.number < since) :
    hosted.Refuses since := by
  intro answer member late
  obtain ⟨posting, _, answered⟩ := List.mem_filterMap.mp member
  obtain ⟨fetch, known, rfl⟩ := Option.map_eq_some_iff.mp answered
  have before := early fetch
    (List.mem_append_left _ (List.mem_of_getElem? known))
  exact (Nat.not_lt.mpr late before).elim

/-- The endpoint is down: `get_session` finds a session that does not run, and
whatever is fetched from the endpoint is refused. -/
structure State.Down (endpoint : SessionEndpoint) (index since : Nat)
    (s : State) : Prop where
  blocked : s.Blocked endpoint index
  found : ∃ found, s.findSession endpoint = some found ∧ found ≤ index
  refused : ∀ hosted ∈ s.sessions, hosted.endpoint = endpoint →
    hosted.Refuses since

/-- Once a session of an endpoint has room and neither it nor one before it
runs, no session is created for the endpoint and no fetch to it is accepted,
whatever happens. -/
theorem run_down {endpoint : SessionEndpoint} {index : Nat} {s t : State}
    {events : List Event} (reached : (machine rules maxPending).Reached s)
    (blocked : s.Blocked endpoint index)
    (ran : (machine rules maxPending).run s events = some t) :
    t.Down endpoint index s.fetches := by
  have outage := reached.run_invariant step_outage (blocked.outage reached) ran
  refine ⟨outage.blocked, outage.found_le, ?_⟩
  intro hosted member same
  obtain ⟨at_, inside, rfl⟩ := List.getElem_of_mem member
  have found : t.sessions[at_]? = some t.sessions[at_] :=
    List.getElem?_eq_getElem inside
  by_cases before : at_ ≤ index
  · exact (outage.front at_ _ before found same).refuses
      (reached_runs (reached.append_run ran) _ member).reached.reached
  · exact Hosted.refuses_of_handed
      (outage.back at_ _ (by omega) found same)

/-- Two fetches after a refused connect. -/
def laterFetches : List Event :=
  [.fetch localUrl false, .fetch localUrl false]

theorem down_of_refusedRun :
    ∃ t : State, t.fetches = 3 ∧ t.sessions.map Hosted.answers =
        [[(⟨0, localUrl, none⟩, some .connectionRefused),
          (⟨1, localUrl, none⟩, some .operationAborted),
          (⟨2, localUrl, none⟩, some .operationAborted)]] ∧
      t.Down localEndpoint 0 1 := by
  have refused : ((machine specialRules 10).run (machine specialRules 10).start
      refusedRun).map (fun s => (s.fetches, s.maxPending, s.sessions.map
        fun hosted => (hosted.endpoint, hosted.running,
          hosted.pendingTasks))) =
      some (1, 10, [(localEndpoint, false, 0)]) := by
    decide +kernel
  have executed : (((machine specialRules 10).run
      (machine specialRules 10).start refusedRun).bind (fun s =>
        (machine specialRules 10).run s laterFetches)).map
          (fun t => (t.fetches, t.sessions.map Hosted.answers)) =
      some (3, [[(⟨0, localUrl, none⟩, some .connectionRefused),
        (⟨1, localUrl, none⟩, some .operationAborted),
        (⟨2, localUrl, none⟩, some .operationAborted)]]) := by
    decide +kernel
  obtain ⟨s, begun, facts⟩ := Option.map_eq_some_iff.mp refused
  obtain ⟨fetches, facts⟩ := Prod.mk.inj facts
  obtain ⟨limit, sessions⟩ := Prod.mk.inj facts
  obtain ⟨hosted, single, known⟩ := List.map_eq_singleton_iff.mp sessions
  obtain ⟨endpoint, facts⟩ := Prod.mk.inj known
  obtain ⟨stopped, pending⟩ := Prod.mk.inj facts
  have blocked : s.Blocked localEndpoint 0 := by
    refine ⟨⟨hosted, by simp [single], endpoint, by omega⟩, ?_⟩
    intro first other before found _
    obtain rfl := Nat.le_zero.mp before
    rw [single] at found
    cases found
    exact stopped
  rw [begun, Option.bind_some] at executed
  obtain ⟨t, ran, facts⟩ := Option.map_eq_some_iff.mp executed
  obtain ⟨three, answers⟩ := Prod.mk.inj facts
  have down := run_down (Machine.reached_of_run refusedRun begun) blocked ran
  rw [fetches] at down
  exact ⟨t, three, answers, down⟩

end Fetchpp.Client

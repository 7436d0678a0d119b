import Fetchpp.Client.Accounting
import Fetchpp.Client.Bounding
import Fetchpp.Client.Selecting

/-!
# How many sessions there are

`get_session` adds a session only if all sessions of the endpoint are full, so
that each session but the last one of an endpoint has been handed as many
fetches as `max_pending_per_session`.  The connections a client may open to an
endpoint are bounded by that, whatever becomes of the fetches.
-/

namespace Fetchpp.Client

open Http Lib

def State.loads (s : State) : List (SessionEndpoint × List Fetch) :=
  s.sessions.map fun hosted => (hosted.endpoint, hosted.handed)

theorem Hosted.tasks_le {hosted : Hosted} (counted : hosted.Counted)
    (reached : Session.machine.Reached hosted.session) :
    hosted.pendingTasks ≤ hosted.handed.length := by
  have numbered := (Session.reached_invariant reached).numbered
  have nodup := (List.nodup_append.mp numbered.nodup).1
  have among : hosted.session.core.accepted.Subperm
      (List.range hosted.session.core.pushes) :=
    List.subperm_of_subset nodup fun push member =>
      List.mem_range.mpr
        ((numbered.known push).mp (List.mem_append_left _ member))
  have accepted := among.length_le
  have queue := congrArg List.length numbered.order
  simp only [List.length_append, List.length_range, counted.pushed] at *
  simp only [pendingTasks, Session.Core.pendingTasks, handed,
    List.length_append]
  omega

theorem State.Stepped.loads {rules : UrlRules} {s t : State} {event : Event}
    (stepped : s.Stepped rules event t)
    (notFetch : ∀ uri completed, event ≠ .fetch uri completed) :
    t.loads = s.loads := by
  have looped : ∀ (op : StopOp) (completed : Bool) (ec : Option ErrorCode)
      (before : State), (op.loop completed ec before).loads = before.loads := by
    intro op completed ec before
    simp only [StopOp.loop]
    split
    · rw [List.modify_eq_set_getElem?]
      cases found : before.sessions[op.begin_]? with
      | none => rfl
      | some hosted =>
          exact map_set_same _ found (Prod.ext
            (hosted.dispatch_endpoint _ _) (hosted.handed_stop _ _ _))
    · rfl
  cases stepped with
  | fetch => exact (notFetch _ _ rfl).elim
  | update update => rfl
  | stop graceful completed => exact looped _ completed none _
  | stopResumed completed member found called =>
      exact looped _ completed _ _
  | stopCalled posted => rfl
  | inner isInner found changed =>
      exact map_set_same _ found
        (Prod.ext changed.endpoint (Hosted.handed_inner changed))

/-- Every session has been handed a fetch, and one that is followed by another
one of its endpoint has been handed as many as the limit. -/
structure Spread (maxPending : Nat)
    (loads : List (SessionEndpoint × List Fetch)) : Prop where
  used : ∀ load ∈ loads, load.2 ≠ []
  full : loads.Pairwise fun earlier later =>
    earlier.1 = later.1 → maxPending ≤ earlier.2.length

namespace Spread

variable {maxPending : Nat} {loads : List (SessionEndpoint × List Fetch)}

theorem hand (spread : Spread maxPending loads) {index : Nat}
    {load : SessionEndpoint × List Fetch} (found : loads[index]? = some load)
    (fetch : Fetch) :
    Spread maxPending (loads.set index (load.1, load.2 ++ [fetch])) where
  used := by
    intro other member
    rcases List.mem_or_eq_of_mem_set member with kept | changed
    · exact spread.used other kept
    · simp [changed]
  full := by
    refine pairwise_set spread.full found ?_ fun _ filled => filled
    intro other filled same
    have earlier := filled same
    simp only [List.length_append]
    omega

theorem open_ (spread : Spread maxPending loads) {endpoint : SessionEndpoint}
    (full : ∀ load ∈ loads, load.1 = endpoint → maxPending ≤ load.2.length)
    (fetch : Fetch) : Spread maxPending (loads ++ [(endpoint, [fetch])]) where
  used := by
    intro load member
    rcases List.mem_append.mp member with kept | added
    · exact spread.used load kept
    · simp [List.mem_singleton.mp added]
  full := by
    refine List.pairwise_append.mpr ⟨spread.full, by simp, ?_⟩
    intro load member created added
    rw [List.mem_singleton.mp added]
    exact full load member

/-- All sessions of an endpoint but the last one are full. -/
theorem filled (spread : Spread maxPending loads)
    (endpoint : SessionEndpoint) :
    ∀ load ∈ (loads.filter fun load => load.1 = endpoint).dropLast,
      maxPending ≤ load.2.length := by
  have full : (loads.filter fun load => load.1 = endpoint).Pairwise
      fun earlier _ => maxPending ≤ earlier.2.length := by
    refine (spread.full.filter _).imp_of_mem ?_
    intro earlier later inEarlier inLater filled
    have left := of_decide_eq_true (List.mem_filter.mp inEarlier).2
    have right := of_decide_eq_true (List.mem_filter.mp inLater).2
    exact filled (left.trans right.symm)
  intro load member
  have split := List.dropLast_append_getLast
    (List.ne_nil_of_mem (List.dropLast_subset _ member))
  rw [← split] at full
  exact (List.pairwise_append.mp full).2.2 load member _
    List.mem_cons_self

theorem handed_of_filled {loads : List (SessionEndpoint × List Fetch)}
    (filled : ∀ load ∈ loads, maxPending ≤ load.2.length) :
    maxPending * loads.length ≤ (loads.flatMap Prod.snd).length := by
  induction loads with
  | nil => exact Nat.le_refl _
  | cons first rest induction =>
      obtain ⟨ahead, behind⟩ := List.forall_mem_cons.mp filled
      have later := induction behind
      rw [List.length_cons, Nat.mul_succ, List.flatMap_cons,
        List.length_append]
      omega

theorem fewer (spread : Spread maxPending loads) (endpoint : SessionEndpoint)
    (some : (loads.filter fun load => load.1 = endpoint) ≠ []) :
    maxPending * ((loads.filter fun load => load.1 = endpoint).length - 1) <
      ((loads.filter fun load => load.1 = endpoint).flatMap
        Prod.snd).length := by
  have front := handed_of_filled (spread.filled endpoint)
  have last := List.length_pos_of_ne_nil (spread.used _
    (List.mem_filter.mp (List.getLast_mem some)).1)
  have split := congrArg (fun own => (own.flatMap Prod.snd).length)
    (List.dropLast_append_getLast some)
  simp only [List.flatMap_append, List.flatMap_singleton, List.length_append]
    at split
  rw [List.length_dropLast] at front
  omega

end Spread

variable {rules : UrlRules} {maxPending : Nat}

theorem State.Fetched.spread {uri : Url} {completed : Bool} {s t : State}
    (fetched : s.Fetched rules uri completed t)
    (spread : Spread s.maxPending s.loads)
    (pending : ∀ hosted ∈ s.sessions,
      hosted.pendingTasks ≤ hosted.handed.length) :
    Spread s.maxPending t.loads := by
  cases fetched with
  | escaped exception threw => exact spread
  | known proxy index hosted selected built search found room =>
      have load : s.loads[index]? = some (hosted.endpoint, hosted.handed) := by
        rw [State.loads, List.getElem?_map, found]
        rfl
      have handed := spread.hand load ⟨s.fetches, uri, proxy⟩
      simpa only [State.loads, List.map_set, hosted.dispatch_endpoint,
        hosted.handed_push] using handed
  | created proxy endpoint selected built search =>
      have full : ∀ load ∈ s.loads, load.1 = endpoint →
          s.maxPending ≤ load.2.length := by
        intro load member same
        obtain ⟨hosted, inDeque, rfl⟩ := List.mem_map.mp member
        exact Nat.le_trans
          (State.findSession_eq_none.mp search hosted inDeque same)
          (pending hosted inDeque)
      have opened := spread.open_ full ⟨s.fetches, uri, proxy⟩
      simpa [State.loads, Hosted.handed, Hosted.execute] using opened

theorem reached_loads {s : State}
    (reached : (machine rules maxPending).Reached s) :
    Spread maxPending s.loads := by
  induction reached with
  | start => exact ⟨by simp [machine, State.loads], by simp [machine, State.loads]⟩
  | @step before after event earlier _ stepped spread =>
      rcases fetched_or stepped with ⟨uri, completed, rfl, fetched⟩ | notFetch
      · have limit := reached_maxPending earlier
        subst limit
        refine fetched.spread spread fun hosted member => ?_
        exact Hosted.tasks_le (reached_counted earlier hosted member)
          (reached_runs earlier hosted member).reached.reached
      · rw [(stepped_cases stepped).loads notFetch]
        exact spread

def State.sessionsOf (endpoint : SessionEndpoint) (s : State) : List Hosted :=
  s.sessions.filter fun hosted => hosted.endpoint = endpoint

theorem State.loads_sessionsOf (endpoint : SessionEndpoint) (s : State) :
    s.loads.filter (fun load => load.1 = endpoint) =
      (s.sessionsOf endpoint).map
        fun hosted => (hosted.endpoint, hosted.handed) := by
  simp [State.loads, State.sessionsOf, List.filter_map, Function.comp_def]

/-- All sessions of an endpoint but the last one have each been handed
`maxPending` fetches at least, so that `n` fetches to an endpoint have taken
`n / maxPending` sessions at most, rounded up. -/
theorem reached_spread {s : State}
    (reached : (machine rules maxPending).Reached s)
    (endpoint : SessionEndpoint) (some : s.sessionsOf endpoint ≠ []) :
    (∀ hosted ∈ (s.sessionsOf endpoint).dropLast,
      maxPending ≤ hosted.handed.length) ∧
    maxPending * ((s.sessionsOf endpoint).length - 1) <
      ((s.sessionsOf endpoint).flatMap Hosted.handed).length := by
  have spread := reached_loads reached
  have loads := s.loads_sessionsOf endpoint
  constructor
  · intro hosted member
    refine spread.filled endpoint (hosted.endpoint, hosted.handed) ?_
    rw [loads, ← List.map_dropLast]
    exact List.mem_map_of_mem member
  · have fewer := spread.fewer endpoint (by simpa [loads] using some)
    simpa [loads, List.flatMap_map] using fewer

/-- Three fetches take two sessions of two. -/
theorem spread_of_spreadRun :
    ∃ s : State, (s.sessionsOf localEndpoint).length = 2 ∧
      (∀ hosted ∈ (s.sessionsOf localEndpoint).dropLast,
        2 ≤ hosted.handed.length) ∧
      2 * ((s.sessionsOf localEndpoint).length - 1) <
        ((s.sessionsOf localEndpoint).flatMap Hosted.handed).length := by
  have executed : ((machine specialRules 2).run (machine specialRules 2).start
      spreadRun).map (fun s => (s.sessionsOf localEndpoint).length) =
      some 2 := by
    decide +kernel
  obtain ⟨s, ran, two⟩ := Option.map_eq_some_iff.mp executed
  have opened : s.sessionsOf localEndpoint ≠ [] := by
    rintro none
    simp [none] at two
  exact ⟨s, two,
    reached_spread (Machine.reached_of_run spreadRun ran) localEndpoint opened⟩

end Fetchpp.Client

import Fetchpp.Client.Hosting

/-!
# Where requests go

Every request is pushed onto a session that dials what its URL and the proxy
selected for it ask for.  What they ask for is said by `Dials`, without the
code; a session never changes its endpoint, and it is found by its endpoint.
-/

namespace Fetchpp.Client

open Http Lib

/-- The endpoint a request asks for: its own host and port, in clear or not,
or a tunnel to it through the host and port of the proxy. -/
inductive Dials (rules : UrlRules) :
    Option Proxy → Url → SessionEndpoint → Prop where
  | plain {uri : Url} {port : Int16} :
      uri.scheme ≠ "https" →
      safePort rules uri = .ok port →
      Dials rules none uri (.plain ⟨uri.hostname, port.toUInt16⟩)
  | secure {uri : Url} {port : Int16} :
      uri.scheme = "https" →
      safePort rules uri = .ok port →
      Dials rules none uri (.secure ⟨uri.hostname, port.toUInt16⟩)
  | tunnel {proxy : Proxy} {uri : Url} {proxyPort port : Int16} :
      uri.scheme = "https" →
      safePort rules proxy.url = .ok proxyPort →
      safePort rules uri = .ok port →
      Dials rules (some proxy) uri
        (.tunnel ⟨⟨proxy.url.hostname, proxyPort.toUInt16⟩,
          ⟨uri.hostname, port.toUInt16⟩⟩)

theorem toEndpoint_eq_ok {rules : UrlRules} {isSecure : Bool} {uri : Url}
    {endpoint : Endpoint isSecure} :
    toEndpoint rules isSecure uri = .ok endpoint ↔
      (isSecure = true → uri.scheme = "https") ∧
        ∃ port, safePort rules uri = .ok port ∧
          endpoint = ⟨uri.hostname, port.toUInt16⟩ := by
  unfold toEndpoint
  cases deduced : safePort rules uri with
  | error exception => simp
  | ok port =>
      have same : ∀ e : Endpoint isSecure,
          (Except.ok e : Except Exception (Endpoint isSecure)) =
            .ok endpoint ↔ endpoint = e := by
        intro e
        rw [Except.ok.injEq]
        exact eq_comm
      cases isSecure with
      | false => simp [same]
      | true =>
          by_cases secure : uri.scheme = "https"
          · simp [secure, uri.protocol_https, same]
          · simp [secure, uri.protocol_https]

/-- What the code computes is what the request asks for. -/
theorem fetchEndpoint_eq_ok {rules : UrlRules} {proxy : Option Proxy}
    {uri : Url} {endpoint : SessionEndpoint} :
    fetchEndpoint rules proxy uri = .ok endpoint ↔
      Dials rules proxy uri endpoint := by
  cases proxy with
  | none =>
      simp only [fetchEndpoint, isSslInvolved_eq, decide_eq_true_eq]
      by_cases secure : uri.scheme = "https"
      · rw [if_pos secure]
        constructor
        · intro built
          cases direct : toEndpoint rules true uri with
          | error exception => simp [direct, Except.map] at built
          | ok target =>
              obtain ⟨_, port, deduced, rfl⟩ := toEndpoint_eq_ok.mp direct
              rw [direct] at built
              cases built
              exact .secure secure deduced
        · intro dials
          cases dials with
          | plain plain => exact (plain secure).elim
          | secure _ deduced =>
              rw [toEndpoint_eq_ok.mpr ⟨fun _ => secure, _, deduced, rfl⟩]
              rfl
      · rw [if_neg secure]
        constructor
        · intro built
          cases direct : toEndpoint rules false uri with
          | error exception => simp [direct, Except.map] at built
          | ok target =>
              obtain ⟨_, port, deduced, rfl⟩ := toEndpoint_eq_ok.mp direct
              rw [direct] at built
              cases built
              exact .plain secure deduced
        · intro dials
          cases dials with
          | secure https => exact (secure https).elim
          | plain _ deduced =>
              rw [toEndpoint_eq_ok.mpr ⟨by simp, _, deduced, rfl⟩]
              rfl
  | some proxy =>
      simp only [fetchEndpoint]
      constructor
      · intro built
        cases first : toEndpoint rules false proxy.url with
        | error exception => simp [first] at built
        | ok plain =>
            cases second : toEndpoint rules true uri with
            | error exception => simp [first, second] at built
            | ok target =>
                obtain ⟨_, proxyPort, proxyDeduced, rfl⟩ :=
                  toEndpoint_eq_ok.mp first
                obtain ⟨secure, port, deduced, rfl⟩ :=
                  toEndpoint_eq_ok.mp second
                simp only [first, second, Except.ok.injEq] at built
                subst built
                exact .tunnel (secure rfl) proxyDeduced deduced
      · intro dials
        cases dials with
        | tunnel secure proxyDeduced deduced =>
            rw [toEndpoint_eq_ok.mpr ⟨by simp, _, proxyDeduced, rfl⟩,
              toEndpoint_eq_ok.mpr ⟨fun _ => secure, _, deduced, rfl⟩]

/-- The session dials what its requests ask for. -/
def Hosted.Routed (rules : UrlRules) (hosted : Hosted) : Prop :=
  ∀ fetch ∈ hosted.handed, Dials rules fetch.proxy fetch.uri hosted.endpoint

theorem Hosted.dispatch_endpoint (completed : Bool) (work : Work)
    (hosted : Hosted) :
    (hosted.dispatch completed work).endpoint = hosted.endpoint := by
  unfold Hosted.dispatch
  split
  · rfl
  · exact hosted.execute_endpoint work

theorem Hosted.handed_stop (graceful : GracefulShutdown) (op : Nat)
    (completed : Bool) (hosted : Hosted) :
    (hosted.dispatch completed (.stop graceful op)).handed = hosted.handed := by
  unfold Hosted.dispatch
  split
  · simp [Hosted.handed]
  · rfl

theorem Hosted.handed_work {work : Work} {rest : List Work} {hosted : Hosted}
    (queued : hosted.queued = work :: rest) :
    (({ hosted with queued := rest } : Hosted).execute work).handed.Perm
      hosted.handed := by
  cases work with
  | stop graceful op => simp [Hosted.handed, Hosted.execute, queued]
  | push fetch =>
      apply (Hosted.handed_execute fetch { hosted with queued := rest }).trans
      simp only [Hosted.handed, queued, List.filterMap_cons]
      exact List.perm_middle.symm

namespace Hosted.Routed

variable {rules : UrlRules} {hosted : Hosted}

theorem push (routed : hosted.Routed rules) {fetch : Fetch}
    (dials : Dials rules fetch.proxy fetch.uri hosted.endpoint)
    {after : Hosted} (endpoint : after.endpoint = hosted.endpoint)
    (handed : after.handed.Perm (fetch :: hosted.handed)) :
    after.Routed rules := by
  intro other member
  rw [endpoint]
  rcases List.mem_cons.mp (handed.mem_iff.mp member) with same | earlier
  · exact same ▸ dials
  · exact routed other earlier

theorem change {event : Event} {after : Hosted}
    (routed : hosted.Routed rules)
    (notFetch : ∀ uri completed, event ≠ .fetch uri completed)
    (changed : Hosted.Change event.Issues hosted after) :
    after.Routed rules := by
  cases changed with
  | @dispatch work completed issues =>
      cases work with
      | stop graceful op =>
          intro fetch member
          rw [Hosted.handed_stop] at member
          rw [Hosted.dispatch_endpoint]
          exact routed fetch member
      | push fetch =>
          cases event with
          | fetch uri completed => exact (notFetch uri completed rfl).elim
          | _ => exact issues.elim
  | work queued =>
      intro fetch member
      rw [Hosted.execute_endpoint]
      exact routed fetch ((Hosted.handed_work queued).mem_iff.mp member)
  | advance => exact routed

end Hosted.Routed

/-- The fetch is pushed onto one session with the endpoint: one that has room,
or a new one if none has. -/
def State.Routes (endpoint : SessionEndpoint) (fetch : Fetch)
    (completed : Bool) (before after : State) : Prop :=
  (∃ index known handed, before.sessions[index]? = some known ∧
    known.endpoint = endpoint ∧ known.pendingTasks < before.maxPending ∧
    after.sessions = before.sessions.set index handed ∧
    handed = known.dispatch completed (.push fetch) ∧
    handed.endpoint = endpoint ∧
    handed.handed.Perm (fetch :: known.handed)) ∨
  ((∀ hosted ∈ before.sessions, hosted.endpoint = endpoint →
      before.maxPending ≤ hosted.pendingTasks) ∧
    ∃ created, after.sessions = before.sessions ++ [created] ∧
      created = ({ endpoint := endpoint } : Hosted).execute (.push fetch) ∧
      created.endpoint = endpoint ∧ created.handed = [fetch])

theorem State.fetch_routes {rules : UrlRules} {uri : Url}
    {proxy : Option Proxy} {endpoint : SessionEndpoint} (completed : Bool)
    (s : State) (selected : selectProxy s.proxies uri = .ok proxy)
    (dials : Dials rules proxy uri endpoint) :
    s.Routes endpoint ⟨s.fetches, uri, proxy⟩ completed
      (s.fetch rules uri completed) := by
  have built := fetchEndpoint_eq_ok.mpr dials
  have fetched := s.fetch_cases rules uri completed
  generalize s.fetch rules uri completed = after at fetched ⊢
  cases fetched with
  | escaped exception threw => simp [State.fetchOp, selected, built] at threw
  | known other index hosted selected' built' search found room =>
      rw [selected] at selected'
      cases selected'
      rw [built] at built'
      cases built'
      exact .inl ⟨index, hosted, _, found, rfl, room, rfl, rfl,
        hosted.dispatch_endpoint _ _, hosted.handed_dispatch _ _⟩
  | created other endpoint' selected' built' search =>
      rw [selected] at selected'
      cases selected'
      rw [built] at built'
      cases built'
      exact .inr ⟨State.findSession_eq_none.mp search, _, rfl, rfl, rfl, rfl⟩

theorem State.Routes.all {rules : UrlRules} {endpoint : SessionEndpoint}
    {fetch : Fetch} {completed : Bool} {before after : State}
    (routes : before.Routes endpoint fetch completed after)
    (dials : Dials rules fetch.proxy fetch.uri endpoint)
    (routed : ∀ hosted ∈ before.sessions, hosted.Routed rules) :
    ∀ hosted ∈ after.sessions, hosted.Routed rules := by
  intro hosted member
  rcases routes with
    ⟨index, known, handed, found, same, _, sessions, _, kept, perm⟩ |
    ⟨_, created, sessions, _, same, single⟩
  · rw [sessions] at member
    rcases List.mem_or_eq_of_mem_set member with earlier | changed
    · exact routed hosted earlier
    · subst changed
      have was := routed known (List.mem_of_getElem? found)
      exact was.push (same ▸ dials) (kept.trans same.symm) perm
  · rw [sessions] at member
    rcases List.mem_append.mp member with earlier | added
    · exact routed hosted earlier
    · rw [List.mem_singleton.mp added]
      intro other inHanded
      rw [single] at inHanded
      rw [List.mem_singleton.mp inHanded, same]
      exact dials

theorem reached_allRouted {rules : UrlRules} {maxPending : Nat} {s : State}
    (reached : (machine rules maxPending).Reached s) :
    ∀ hosted ∈ s.sessions, hosted.Routed rules := by
  induction reached with
  | start => simp [machine]
  | @step before after event _ _ stepped routed =>
      by_cases fetches : ∃ uri completed, event = .fetch uri completed
      · obtain ⟨uri, completed, rfl⟩ := fetches
        cases stepped
        cases selected : selectProxy before.proxies uri with
        | error exception =>
            simpa [State.fetch, State.fetchOp, selected] using routed
        | ok proxy =>
            cases built : fetchEndpoint rules proxy uri with
            | error exception =>
                simpa [State.fetch, State.fetchOp, selected, built] using routed
            | ok endpoint =>
                have dials := fetchEndpoint_eq_ok.mp built
                exact (before.fetch_routes completed selected dials).all dials
                  routed
      · have notFetch : ∀ uri completed, event ≠ .fetch uri completed :=
          fun uri completed same => fetches ⟨uri, completed, same⟩
        refine (step_touches stepped).all routed ?_
          (fun _ _ changed holds => holds.change notFetch changed)
        rintro component ⟨endpoint, rfl⟩
        intro fetch member
        simp [Hosted.handed] at member

/-- In every state of a client each session dials what the requests it was
handed ask for, and the next request goes to one session that dials what it
asks for, to a new one only if no such session has room. -/
theorem reached_routed {rules : UrlRules} {maxPending : Nat} {s : State}
    (reached : (machine rules maxPending).Reached s) :
    (∀ hosted ∈ s.sessions, hosted.Routed rules) ∧
      ∀ uri completed proxy endpoint, selectProxy s.proxies uri = .ok proxy →
        Dials rules proxy uri endpoint →
        s.Routes endpoint ⟨s.fetches, uri, proxy⟩ completed
          (s.fetch rules uri completed) := by
  constructor
  · exact reached_allRouted reached
  · intro uri completed proxy endpoint selected dials
    exact s.fetch_routes completed selected dials

def localProxy : Proxy where
  url :=
    { scheme := "http"
      hostname := "localhost"
      port := "3128"
      origin := "http://localhost:3128" }

def remoteUrl : Url where
  scheme := "https"
  hostname := "example.com"
  origin := "https://example.com"

def remoteTunnel : SessionEndpoint :=
  .tunnel ⟨⟨"localhost", 3128⟩, ⟨"example.com", 443⟩⟩

/-- Two requests, the second through a proxy that was added before it. -/
def proxiedRun : List Event :=
  [.fetch localUrl false, .update (.add (.scheme .https) localProxy),
    .fetch remoteUrl false]

theorem routed_of_proxiedRun :
    ∃ s : State, s.sessions.map Hosted.endpoint =
        [.plain ⟨"localhost", 80⟩, remoteTunnel] ∧
      (∀ hosted ∈ s.sessions, hosted.Routed specialRules) ∧
      s.Routes remoteTunnel ⟨s.fetches, remoteUrl, some localProxy⟩ false
        (s.fetch specialRules remoteUrl false) := by
  have executed : ((machine specialRules 10).run (machine specialRules 10).start
      proxiedRun).map (fun s => (s.sessions.map Hosted.endpoint,
        s.proxies.find (.origin remoteUrl.origin),
        s.proxies.find (.scheme .https))) =
      some ([.plain ⟨"localhost", 80⟩, remoteTunnel], none,
        some localProxy) := by
    decide +kernel
  obtain ⟨s, ran, facts⟩ := Option.map_eq_some_iff.mp executed
  obtain ⟨endpoints, known⟩ := Prod.mk.inj facts
  obtain ⟨noOrigin, scheme⟩ := Prod.mk.inj known
  obtain ⟨routed, routes⟩ :=
    reached_routed (Machine.reached_of_run proxiedRun ran)
  have selected : selectProxy s.proxies remoteUrl = .ok (some localProxy) := by
    simp [selectProxy, schemeToProxyScheme, findFirst, remoteUrl, scheme,
      show s.proxies.find (.origin "https://example.com") = none from noOrigin]
  have dials : Dials specialRules (some localProxy) remoteUrl remoteTunnel :=
    fetchEndpoint_eq_ok.mp (by decide +kernel)
  exact ⟨s, endpoints, routed,
    routes remoteUrl false (some localProxy) remoteTunnel selected dials⟩

end Fetchpp.Client

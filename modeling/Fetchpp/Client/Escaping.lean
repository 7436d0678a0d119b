import Fetchpp.Client.Hosting

/-!
# Exceptions of a fetch

Four helpers of `client_fetch_op` throw, and nothing catches what they throw:
a fetch either pushes its request onto one session or its handler is lost.
Which of the two it is can be told from the URL and the proxies alone.
-/

namespace Fetchpp.Client

open Http Lib

def State.handed (s : State) : List Fetch :=
  s.sessions.flatMap Hosted.handed

/-- The fetch hands its request to one session, once, and nothing escapes. -/
def State.HandsOver (rules : UrlRules) (uri : Url) (completed : Bool)
    (s : State) : Prop :=
  (s.fetch rules uri completed).escaped = s.escaped ∧
    ∃ proxy, (s.fetch rules uri completed).handed.Perm
      (⟨s.fetches, uri, proxy⟩ :: s.handed)

/-- The proxy that is registered for the origin of the URL or, if there is
none, for its scheme. -/
def Serves (proxies : ProxyMap) (uri : Url) (proxy : Proxy) : Prop :=
  proxies.find (.origin uri.origin) = some proxy ∨
    proxies.find (.origin uri.origin) = none ∧
      ∃ scheme, schemeToProxyScheme uri.scheme = .ok scheme ∧
        proxies.find (.scheme scheme) = some proxy

/-- The scheme is one of `http`, `https` and `all`, the URL has a port, and if
a proxy serves it the scheme is `https` and the URL of the proxy has a port. -/
structure Fetchable (rules : UrlRules) (proxies : ProxyMap) (uri : Url) :
    Prop where
  proxied : uri.Proxied
  hasPort : uri.hasPort rules = true
  proxy : ∀ proxy, Serves proxies uri proxy →
    uri.scheme = "https" ∧ proxy.url.hasPort rules = true

theorem selectProxy_serves {proxies : ProxyMap} {uri : Url}
    {selected : Option Proxy} (ok : selectProxy proxies uri = .ok selected)
    (proxy : Proxy) : Serves proxies uri proxy ↔ selected = some proxy := by
  unfold selectProxy at ok
  split at ok
  case h_1 => cases ok
  case h_2 scheme known =>
    cases ok
    simp only [Serves, findFirst, known, Except.ok.injEq, exists_eq_left']
    cases proxies.find (.origin uri.origin) with
    | some other => simp
    | none => cases proxies.find (.scheme scheme) <;> simp

theorem fetchEndpoint_ok (rules : UrlRules) (proxy : Option Proxy)
    (uri : Url) :
    (∃ endpoint, fetchEndpoint rules proxy uri = .ok endpoint) ↔
      uri.hasPort rules = true ∧ ∀ other, proxy = some other →
        uri.scheme = "https" ∧ other.url.hasPort rules = true := by
  cases proxy with
  | none =>
      have direct : ∀ (isSecure : Bool) (wrap : Endpoint isSecure →
          SessionEndpoint),
          (∃ endpoint, (toEndpoint rules isSecure uri).map wrap =
            .ok endpoint) ↔
          ∃ endpoint, toEndpoint rules isSecure uri = .ok endpoint := by
        intro isSecure wrap
        cases toEndpoint rules isSecure uri <;> simp [Except.map]
      simp only [fetchEndpoint, isSslInvolved_eq, decide_eq_true_eq]
      by_cases secure : uri.scheme = "https"
      · rw [if_pos secure, direct, toEndpoint_ok]
        simp [secure]
      · rw [if_neg secure, direct, toEndpoint_ok]
        simp
  | some proxy =>
      have plain := toEndpoint_ok rules false proxy.url
      have target := toEndpoint_ok rules true uri
      simp only [fetchEndpoint]
      cases proxied : toEndpoint rules false proxy.url with
      | error exception =>
          simp only [proxied] at plain
          simp_all
      | ok endpoint =>
          cases targeted : toEndpoint rules true uri with
          | error exception => simp_all
          | ok targetEndpoint => simp_all

theorem fetchOp_ok (rules : UrlRules) (uri : Url) (completed : Bool)
    (s : State) :
    (∃ after, s.fetchOp rules uri completed = .ok after) ↔
      Fetchable rules s.proxies uri := by
  have schemes := selectProxy_ok s.proxies uri
  unfold State.fetchOp
  cases selection : selectProxy s.proxies uri with
  | error exception =>
      have unknown : ¬uri.Proxied := by
        rw [← schemes, selection]
        simp
      constructor
      · simp
      · intro fetchable
        exact (unknown fetchable.proxied).elim
  | ok selected =>
      have proxied : uri.Proxied := schemes.mp ⟨selected, selection⟩
      have serves := selectProxy_serves selection
      have endpoints := fetchEndpoint_ok rules selected uri
      constructor
      · rintro ⟨after, fetched⟩
        dsimp only at fetched
        split at fetched
        case h_1 => cases fetched
        case h_2 endpoint built =>
          obtain ⟨hasPort, proxyPort⟩ := endpoints.mp ⟨endpoint, built⟩
          exact ⟨proxied, hasPort, fun proxy served =>
            proxyPort proxy ((serves proxy).mp served)⟩
      · intro fetchable
        obtain ⟨endpoint, built⟩ := endpoints.mpr ⟨fetchable.hasPort,
          fun proxy same => fetchable.proxy proxy ((serves proxy).mpr same)⟩
        simp [built]

theorem handed_set {sessions : List Hosted} {index : Nat}
    {hosted after : Hosted} {fetch : Fetch}
    (found : sessions[index]? = some hosted)
    (handed : after.handed.Perm (fetch :: hosted.handed)) :
    ((sessions.set index after).flatMap Hosted.handed).Perm
      (fetch :: sessions.flatMap Hosted.handed) := by
  induction sessions generalizing index with
  | nil => simp at found
  | cons first rest induction =>
      cases index with
      | zero =>
          cases found
          exact handed.append_right _
      | succ index =>
          have later := induction found
          exact (later.append_left _).trans List.perm_middle

/-- A fetch hands its request to one session, whatever the state of the client,
exactly for what can be fetched. -/
theorem handsOver_iff_fetchable (rules : UrlRules) (uri : Url)
    (completed : Bool) (s : State) :
    s.HandsOver rules uri completed ↔ Fetchable rules s.proxies uri := by
  rw [← fetchOp_ok rules uri completed s]
  have fetched := s.fetch_cases rules uri completed
  unfold State.HandsOver
  generalize s.fetch rules uri completed = after at fetched
  cases fetched with
  | escaped exception threw => simp [threw]
  | known proxy index hosted selected built search found room =>
      have ok : ∃ after, s.fetchOp rules uri completed = .ok after := by
        simp [State.fetchOp, selected, built]
      refine iff_of_true ⟨rfl, proxy, ?_⟩ ok
      exact handed_set found (hosted.handed_dispatch completed _)
  | created proxy endpoint selected built search =>
      have ok : ∃ after, s.fetchOp rules uri completed = .ok after := by
        simp [State.fetchOp, selected, built]
      refine iff_of_true ⟨rfl, proxy, ?_⟩ ok
      simp [State.handed, Hosted.handed, Hosted.execute]

/-- A plain URL and a proxy for plain URLs. -/
theorem plainProxied_not_handsOver :
    ¬∀ rules uri completed (s : State), uri.hostname ≠ "" →
      s.HandsOver rules uri completed := by
  intro handsOver
  let uri : Url :=
    { scheme := "http"
      hostname := "example.com"
      origin := "http://example.com" }
  let proxyUrl : Url :=
    { scheme := "http"
      hostname := "localhost"
      port := "3128"
      origin := "http://localhost:3128" }
  let client : State :=
    { proxies := { entries := [(.scheme .http, { url := proxyUrl })] } }
  have handed := handsOver specialRules uri false client (by decide)
  have escaped : (client.fetch specialRules uri false).escaped =
      [(0, .domainError "invalid url for secure endpoint")] := by
    decide +kernel
  rw [State.HandsOver, escaped] at handed
  exact List.cons_ne_nil _ _ handed.1

end Fetchpp.Client

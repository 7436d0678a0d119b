import Fetchpp.Client.Accounting
import Fetchpp.Client.Escaping
import Fetchpp.Client.Routing
import Fetchpp.Http.Environment

/-!
# Clients with the proxies of the environment

What `proxy_from_environment` reads is given to `set_proxies`.  From then on, as
long as no other call changes the proxies, URLs of `https` are fetched through
the proxy that the environment names for them, and all others directly.  There
are no tunnels to plain hosts, so that a proxy named for `http` serves nothing:
it keeps every URL of `http` from being fetched.
-/

namespace Fetchpp.Client

open Http Lib

variable {rules : UrlRules} {maxPending : Nat} {http https : Option Proxy}

def Event.KeepsProxies (event : Event) : Prop :=
  ∀ update, event ≠ .update update

/-- What can be fetched with a proxy for `http` and one for `https`. -/
structure Served (rules : UrlRules) (http https : Option Proxy) (uri : Url) :
    Prop where
  proxied : uri.Proxied
  hasPort : uri.hasPort rules = true
  direct : uri.scheme = "http" → http = none
  tunnelled : uri.scheme = "https" → ∀ proxy, https = some proxy →
    proxy.url.hasPort rules = true

/-- The proxy through which a URL is fetched. -/
def tunnelProxy (https : Option Proxy) (uri : Url) : Option Proxy :=
  if uri.scheme = "https" then https else none

theorem Served.proxy {uri : Url} (served : Served rules http https uri) :
    environmentProxy http https uri = tunnelProxy https uri := by
  unfold environmentProxy tunnelProxy
  by_cases secure : uri.scheme = "https"
  · rw [if_pos secure, if_pos secure]
  · rw [if_neg secure, if_neg secure]
    by_cases plain : uri.scheme = "http"
    · rw [if_pos plain, served.direct plain]
    · rw [if_neg plain]

theorem fetchable_iff_served {proxies : ProxyMap} (uri : Url)
    (holds : proxies.Holds http https) :
    Fetchable rules proxies uri ↔ Served rules http https uri := by
  constructor
  · intro fetchable
    have serves := selectProxy_serves (holds.selects fetchable.proxied)
    refine ⟨fetchable.proxied, fetchable.hasPort, ?_, ?_⟩
    · intro plain
      cases named : http with
      | none => rfl
      | some proxy =>
          have selected : environmentProxy http https uri = some proxy := by
            simp [environmentProxy, plain, named]
          have secure := (fetchable.proxy proxy
            ((serves proxy).mpr selected)).1
          rw [plain] at secure
          exact absurd secure (by decide)
    · intro secure proxy named
      have selected : environmentProxy http https uri = some proxy := by
        simp [environmentProxy, secure, named]
      exact (fetchable.proxy proxy ((serves proxy).mpr selected)).2
  · intro served
    refine ⟨served.proxied, served.hasPort, ?_⟩
    intro proxy serves
    have selected := (selectProxy_serves (holds.selects served.proxied)
      proxy).mp serves
    rw [served.proxy, tunnelProxy] at selected
    split at selected
    case isTrue secure => exact ⟨secure, served.tunnelled secure proxy selected⟩
    case isFalse => cases selected

/-- Of the fetches from this number on the session was handed only such as can
be fetched, with the proxy that serves them. -/
def Hosted.Configured (rules : UrlRules) (http https : Option Proxy)
    (since : Nat) (hosted : Hosted) : Prop :=
  ∀ fetch ∈ hosted.handed, since ≤ fetch.number →
    Served rules http https fetch.uri ∧
      fetch.proxy = tunnelProxy https fetch.uri

/-- A client that uses these proxies since the fetch of this number. -/
structure State.Uses (rules : UrlRules) (http https : Option Proxy)
    (since : Nat) (s : State) : Prop where
  holds : s.proxies.Holds http https
  sessions : ∀ hosted ∈ s.sessions, hosted.Configured rules http https since

theorem Hosted.Configured.push {since : Nat} {hosted after : Hosted}
    {fetch : Fetch} (configured : hosted.Configured rules http https since)
    (handed : after.handed = hosted.handed ++ [fetch])
    (served : Served rules http https fetch.uri)
    (proxy : fetch.proxy = tunnelProxy https fetch.uri) :
    after.Configured rules http https since := by
  intro other member late
  rw [handed] at member
  rcases List.mem_append.mp member with earlier | single
  · exact configured other earlier late
  · rw [List.mem_singleton.mp single]
    exact ⟨served, proxy⟩

theorem State.Uses.selected {since : Nat} {uri : Url} {proxy : Option Proxy}
    {endpoint : SessionEndpoint} {s : State}
    (uses : s.Uses rules http https since)
    (selected : selectProxy s.proxies uri = .ok proxy)
    (built : fetchEndpoint rules proxy uri = .ok endpoint) :
    Served rules http https uri ∧ proxy = tunnelProxy https uri := by
  have ok : ∃ after, s.fetchOp rules uri false = .ok after := by
    simp [State.fetchOp, selected, built]
  have served := (fetchable_iff_served uri uses.holds).mp
    ((fetchOp_ok rules uri false s).mp ok)
  rw [uses.holds.selects served.proxied, Except.ok.injEq] at selected
  exact ⟨served, selected ▸ served.proxy⟩

theorem State.Fetched.uses {since : Nat} {uri : Url} {completed : Bool}
    {s t : State} (fetched : s.Fetched rules uri completed t)
    (uses : s.Uses rules http https since) : t.Uses rules http https since := by
  cases fetched with
  | escaped exception threw => exact ⟨uses.holds, uses.sessions⟩
  | known proxy index hosted selected built search found room =>
      obtain ⟨served, chosen⟩ := uses.selected selected built
      refine ⟨uses.holds, ?_⟩
      intro other member
      rcases List.mem_or_eq_of_mem_set member with kept | changed
      · exact uses.sessions other kept
      · have earlier := uses.sessions hosted (List.mem_of_getElem? found)
        rw [changed]
        exact earlier.push (hosted.handed_push completed _) served chosen
  | created proxy endpoint selected built search =>
      obtain ⟨served, chosen⟩ := uses.selected selected built
      refine ⟨uses.holds, ?_⟩
      intro other member
      rcases List.mem_append.mp member with kept | added
      · exact uses.sessions other kept
      · have empty : ({ endpoint := endpoint } : Hosted).Configured rules http
            https since := by
          intro fetch handed
          simp [Hosted.handed] at handed
        rw [List.mem_singleton.mp added]
        exact empty.push rfl served chosen

theorem step_uses {since : Nat} {s t : State} {event : Event}
    (keeps : event.KeepsProxies) (uses : s.Uses rules http https since)
    (stepped : step rules s event = some t) :
    t.Uses rules http https since := by
  rcases fetched_or stepped with ⟨uri, completed, rfl, fetched⟩ | notFetch
  · exact fetched.uses uses
  · refine ⟨(step_settings stepped).2 keeps ▸ uses.holds, ?_⟩
    refine (step_touches stepped).all uses.sessions ?_ ?_
    · rintro component ⟨endpoint, rfl⟩ fetch member
      simp [Hosted.handed] at member
    · intro before after changed holds
      unfold Hosted.Configured
      rw [Hosted.handed_change notFetch changed]
      exact holds

/-- What a client does from the fetch of this number on. -/
structure State.Configured (rules : UrlRules) (http https : Option Proxy)
    (since : Nat) (s : State) : Prop where
  /-- a fetch throws nothing exactly if its URL can be fetched -/
  fetches : ∀ uri completed,
    (∃ after, s.fetchOp rules uri completed = .ok after) ↔
      Served rules http https uri
  /-- those that were handed over go through the proxy for `https`, or to their
  own hosts -/
  routed : ∀ hosted ∈ s.sessions, ∀ fetch ∈ hosted.handed,
    since ≤ fetch.number → Served rules http https fetch.uri ∧
      Dials rules (tunnelProxy https fetch.uri) fetch.uri hosted.endpoint

/-- Where the variables of the environment name proxies, they are read; and in
every run of a client that was given them, as long as no other call changes its
proxies, they are used for `https` and keep `http` from being fetched. -/
theorem run_configured {parseUrl : String → Option UrlRecord}
    {base64 : String → String} {getenv : String → Option String} {s : State}
    (names : NamesProxies parseUrl base64 getenv http https)
    (reached : (machine rules maxPending).Reached s) :
    ∃ proxies, proxyFromEnvironment parseUrl base64 getenv = .ok proxies ∧
      ∀ events t, (∀ event ∈ events, Event.KeepsProxies event) →
        (machine rules maxPending).run s (.update (.set proxies) :: events) =
          some t →
        t.Configured rules http https s.fetches := by
  obtain ⟨proxies, read, holds⟩ := proxyFromEnvironment_eq_ok names
  refine ⟨proxies, read, ?_⟩
  intro events t keep ran
  have set : (machine rules maxPending).step s (.update (.set proxies)) =
      some { s with proxies := proxies } := rfl
  have given : (machine rules maxPending).Reached { s with proxies := proxies } :=
    reached.step trivial set
  have uses : ({ s with proxies := proxies } : State).Uses rules http https
      s.fetches := by
    refine ⟨holds, ?_⟩
    intro hosted member fetch handed late
    have early := (reached_inOrder reached hosted member).known fetch handed
    exact (Nat.not_lt.mpr late early).elim
  have kept := given.run_invariant_of (fun _ => step_uses) uses keep ran
  refine ⟨fun uri completed => ?_, ?_⟩
  · exact (fetchOp_ok rules uri completed t).trans
      (fetchable_iff_served uri kept.holds)
  · intro hosted member fetch handed late
    obtain ⟨served, proxy⟩ := kept.sessions hosted member fetch handed late
    have routed := reached_allRouted (given.append_run ran) hosted member
    exact ⟨served, proxy ▸ routed fetch handed⟩

/-- A proxy for `https`, in a variable in upper case; the one in lower case is
empty. -/
def exampleEnvironment : String → Option String
  | "https_proxy" => some ""
  | "HTTPS_PROXY" => some "http://localhost:3128"
  | _ => none

def parseProxyUrl : String → Option UrlRecord
  | "http://localhost:3128" => some
      { scheme := "http"
        host := some "localhost"
        url := localProxy.url }
  | _ => none

def secureProxies : ProxyMap where
  entries := [(.scheme .https, localProxy)]

theorem configured_of_exampleEnvironment :
    ∃ t : State, t.sessions.map Hosted.endpoint =
        [remoteTunnel, .plain ⟨"localhost", 80⟩] ∧
      t.Configured specialRules none (some localProxy) 0 := by
  have names : NamesProxies parseProxyUrl id exampleEnvironment none
      (some localProxy) := ⟨.nothing, .proxy rfl⟩
  have read : proxyFromEnvironment parseProxyUrl id exampleEnvironment =
      .ok secureProxies := rfl
  have executed : ((machine specialRules 10).run (machine specialRules 10).start
      [.update (.set secureProxies), .fetch remoteUrl false,
        .fetch localUrl false]).map (fun t => t.sessions.map Hosted.endpoint) =
      some [remoteTunnel, .plain ⟨"localhost", 80⟩] := by
    decide +kernel
  obtain ⟨t, ran, endpoints⟩ := Option.map_eq_some_iff.mp executed
  have reached : (machine specialRules 10).Reached
      (machine specialRules 10).start := .start
  obtain ⟨proxies, alsoRead, configured⟩ := run_configured names reached
  obtain rfl := Except.ok.inj (read.symm.trans alsoRead)
  refine ⟨t, endpoints, configured _ t ?_ ran⟩
  simp [Event.KeepsProxies]

end Fetchpp.Client

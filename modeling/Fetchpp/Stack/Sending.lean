import Fetchpp.Stack.Delivering

/-!
# What is sent where

A session looks up the host that each of its fetches is to be sent to, asks its
proxy for a tunnel to the host each of them names, and writes the requests of
its own fetches only.
-/

namespace Fetchpp

open Http Lib

variable {Byte Response : Type}

theorem Point.resume_ne_resolving {codec : Codec Byte Response}
    {endpoint : SessionEndpoint} {stream : Nat} {t : Transport Byte}
    {point : Point Byte Response} {answer : Answer Byte}
    {next : Step Byte Response}
    (resumed : point.resume codec endpoint stream t answer = some next)
    (domain service : String) :
    next.2 ≠ .await (.resolving domain service) := by
  intro resolves
  cases kind : point.kind with
  | exchange =>
      rcases Point.resume_cases resumed with ⟨_, keeps⟩ | ⟨closes, _⟩
      · have stays := keeps.stays
        rw [resolves, kind] at stays
        cases stays
      · rw [kind] at closes
        cases closes
  | close =>
      obtain ⟨ec, u, _, rfl⟩ := Point.closes resumed kind
      rw [closed_completes] at resolves
      cases resolves
  | connect =>
      have connects := Point.connects resumed kind
      cases connects with
      | fails error ends like =>
          rcases ends with completes | completesFirst
          · rw [completes] at resolves
            cases resolves
          · rw [completesFirst] at resolves
            cases resolves
      | opens named => cases resolves
      | connects plain => cases resolves
      | shakes secure => cases resolves
      | asks tunnels => cases resolves
      | escapes throws => cases resolves
      | @proxies tunnel io answer rest result tunnels resumed =>
          cases result with
          | pending io => cases resolves
          | failed error => cases resolves
          | wrote sent => cases resolves
          | read response =>
              simp only [tunnelProxied] at resolves
              split at resolves <;> cases resolves
      | shaken => cases resolves

/-- The host that a connect to the endpoint looks up. -/
def SessionEndpoint.lookup : SessionEndpoint → String × UInt16
  | .plain endpoint => (endpoint.domain, endpoint.port)
  | .secure endpoint => (endpoint.domain, endpoint.port)
  | .tunnel endpoint => (endpoint.proxy.domain, endpoint.proxy.port)

namespace Connection

open Session

variable {codec : Codec Byte Response} {endpoint : SessionEndpoint}
  {request : PushId → Request}

theorem reached_looksUp {s : State Byte Response}
    (reached : (machine codec endpoint request).Reached s) :
    ∀ waiting ∈ s.waiting, ∀ domain service,
      waiting.point = .resolving domain service →
      domain = endpoint.lookup.1 ∧ service = toString endpoint.lookup.2 := by
  refine @reached_waits _ _ _ _ _
    (fun _ point => ∀ domain service, point = .resolving domain service →
      domain = endpoint.lookup.1 ∧ service = toString endpoint.lookup.2)
    (fun _ resumed awaits => ?_) (fun begun awaits => ?_) _ reached
  · rintro domain service rfl
    exact (Point.resume_ne_resolving resumed _ _ awaits).elim
  · rintro domain service rfl
    have fits := started_fits begun awaits
    rename_i t effect operation next
    cases effect with
    | post handler => cases begun
    | wait stop => cases begun
    | cancelTimer => cases begun
    | connect caller =>
        cases begun
        cases endpoint <;> cases awaits <;> exact ⟨rfl, rfl⟩
    | exchange op =>
        cases begun
        cases fits
    | close graceful caller =>
        cases begun
        cases fits

theorem reached_writes {s : State Byte Response}
    (reached : (machine codec endpoint request).Reached s) :
    ∀ waiting ∈ s.waiting, ∀ written,
      waiting.point = .exchanging (.writing written) →
      ∃ op, waiting.operation = .exchange op ∧ written = request op.task := by
  refine @reached_waits _ _ _ _ _
    (fun operation point => ∀ written,
      point = .exchanging (.writing written) →
      ∃ op, operation = .exchange op ∧ written = request op.task)
    (fun _ resumed awaits => ?_) (fun begun awaits => ?_) _ reached
  · rintro written rfl
    exact (Point.resume_ne_writing resumed written awaits).elim
  · rintro written rfl
    have fits := started_fits begun awaits
    rename_i t effect operation next
    cases effect with
    | post handler => cases begun
    | wait stop => cases begun
    | cancelTimer => cases begun
    | connect caller =>
        cases begun
        cases fits
    | exchange op =>
        cases begun
        refine ⟨op, rfl, ?_⟩
        unfold processOne at awaits
        split at awaits
        · cases awaits
        · cases awaits
          rfl
    | close graceful caller =>
        cases begun
        cases fits

end Connection

namespace Client

/-- The URL of the host a fetch is sent to, that of the proxy if there is one.
-/
def Fetch.via (fetch : Fetch) : Url :=
  match fetch.proxy with
  | some proxy => proxy.url
  | none => fetch.uri

theorem Dials.lookup {rules : UrlRules} {fetch : Fetch}
    {endpoint : SessionEndpoint}
    (dials : Dials rules fetch.proxy fetch.uri endpoint) :
    endpoint.lookup.1 = fetch.via.hostname ∧
      ∃ port, safePort rules fetch.via = .ok port ∧
        endpoint.lookup.2 = port.toUInt16 := by
  obtain ⟨number, uri, proxy⟩ := fetch
  cases dials with
  | plain notSecure deduced => exact ⟨rfl, _, deduced, rfl⟩
  | secure secure deduced => exact ⟨rfl, _, deduced, rfl⟩
  | tunnel secure proxyDeduced deduced => exact ⟨rfl, _, proxyDeduced, rfl⟩

theorem Dials.tunnelled {rules : UrlRules} {proxy : Option Proxy} {uri : Url}
    {tunnel : TunnelEndpoint} (dials : Dials rules proxy uri (.tunnel tunnel)) :
    proxy.isSome = true ∧ tunnel.target.domain = uri.hostname ∧
      ∃ port, safePort rules uri = .ok port ∧
        tunnel.target.port = port.toUInt16 := by
  cases dials with
  | tunnel secure proxyDeduced deduced => exact ⟨rfl, rfl, _, deduced, rfl⟩

/-- A request goes out in clear if and only if its URL is not one of https. -/
theorem Dials.clear_iff {rules : UrlRules} {proxy : Option Proxy} {uri : Url}
    {endpoint : SessionEndpoint} (dials : Dials rules proxy uri endpoint) :
    (∃ target, endpoint = .plain target) ↔ uri.scheme ≠ "https" := by
  cases dials with
  | plain notSecure deduced => simp [notSecure]
  | secure secure deduced => simp [secure]
  | tunnel secure proxyDeduced deduced => simp [secure]

end Client

namespace Stack

open Client

variable {codec : Codec Byte Response} {rules : UrlRules}
  {requests : Nat → Request} {maxPending : Nat}

/-- What a session sends for the fetches it was handed. -/
structure Sends (rules : UrlRules) (requests : Nat → Request) (hosted : Hosted)
    (connection : Connection.State Byte Response) : Prop where
  /-- it looks up the host of each of them, or of its proxy -/
  looksUp : ∀ waiting ∈ connection.waiting, ∀ domain service,
    waiting.point = .resolving domain service →
    ∀ fetch ∈ hosted.handed, domain = fetch.via.hostname ∧
      ∃ port, safePort rules fetch.via = .ok port ∧
        service = toString port.toUInt16
  /-- it asks a proxy for a tunnel to the host of each of them -/
  asks : ∀ waiting ∈ connection.waiting, ∀ written,
    waiting.point = .proxying (.writing written) →
    ∀ fetch ∈ hosted.handed, fetch.proxy.isSome = true ∧
      ∃ port, safePort rules fetch.uri = .ok port ∧
        written.target =
          fetch.uri.hostname ++ ":" ++ toString port.toUInt16
  /-- it writes the request of one of them, in clear unless that is for https
  -/
  writes : ∀ waiting ∈ connection.waiting, ∀ written,
    waiting.point = .exchanging (.writing written) →
    ∃ fetch ∈ hosted.pushed, written = requests fetch.number ∧
      ((∃ target, hosted.endpoint = .plain target) ↔
        fetch.uri.scheme ≠ "https")

def State.Sends (rules : UrlRules) (requests : Nat → Request)
    (s : State Byte Response) : Prop :=
  List.Forall₂ (Stack.Sends rules requests) s.client.sessions s.connections

theorem Wire.sends {Allowed : SessionEndpoint → Connection.Event Byte → Prop}
    {hosted : Hosted}
    {connection : Connection.State Byte Response}
    (wire : Wire codec requests Allowed hosted connection)
    (routed : hosted.Routed rules) :
    Stack.Sends rules requests hosted connection where
  looksUp := by
    intro waiting member domain service resolving fetch handed
    obtain ⟨domainSame, serviceSame⟩ := Connection.reached_looksUp
      wire.reached.reached waiting member domain service resolving
    obtain ⟨host, port, deduced, portSame⟩ := (routed fetch handed).lookup
    exact ⟨domainSame.trans host, port, deduced, portSame ▸ serviceSame⟩
  asks := by
    intro waiting member written writing fetch handed
    obtain ⟨tunnel, tunnels, rfl⟩ := Connection.reached_proposes
      wire.reached.reached waiting member written (by simp [writing,
        Point.proposed])
    have dials := routed fetch handed
    rw [tunnels] at dials
    obtain ⟨proxied, host, port, deduced, portSame⟩ := dials.tunnelled
    refine ⟨proxied, port, deduced, ?_⟩
    rw [← host, ← portSame]
    rfl
  writes := by
    intro waiting member written writing
    obtain ⟨op, exchange, rfl⟩ := Connection.reached_writes
      wire.reached.reached waiting member written writing
    have outstanding : waiting.operation ∈ connection.outstanding :=
      List.mem_append_left _ (List.mem_map_of_mem member)
    have waits := (Connection.reached_linked wire.reached.reached).subperm.subset
      outstanding
    rw [exchange] at waits
    have known := (Session.reached_invariant (Connection.reached_session
      wire.reached.reached)).driver_known (Session.State.mem_drivers waits rfl)
    rw [wire.session, wire.counted.pushed] at known
    obtain ⟨fetch, found⟩ : ∃ fetch, hosted.pushed[op.task]? = some fetch :=
      ⟨_, List.getElem?_eq_getElem known⟩
    have pushed := List.mem_of_getElem? found
    refine ⟨fetch, pushed, by simp [Hosted.request, found], ?_⟩
    exact (routed fetch (List.mem_append_left _ pushed)).clear_iff

/-- However the steps of a client, of its sessions and of their transports are
ordered, what is sent for a fetch is sent where its URL and its proxy ask for,
and never in clear if its URL is one of https. -/
theorem reached_sends {s : State Byte Response}
    (reached : (machine codec rules requests maxPending).Reached s) :
    s.Sends rules requests := by
  have routed := reached_allRouted (reached_client reached)
  have both := (List.forall₂_and_left _ _).mpr
    ⟨routed, reached_wired reached⟩
  exact both.imp fun hosted connection known => known.2.sends known.1

/-- A fetch through a proxy while it asks for its tunnel, and one in clear
while its request is written. -/
def askingThenWritingRun : List (Event Char) :=
  [.client (.update (.add (.scheme .https) localProxy)),
    .client (.fetch remoteUrl false), .client (.fetch localUrl false),
    .session 0 (.post .processTask),
    .session 0 (.answer 0 (.resolved none none true)),
    .session 1 (.post .processTask),
    .session 0 (.answer 0 (.connected none none true)),
    .session 1 (.answer 0 (.resolved none none true)),
    .session 1 (.answer 0 (.connected none none true)), .session 1 .complete]

def writing (connection : Connection.State Byte Response) : List String :=
  connection.waiting.filterMap fun waiting =>
    match waiting.point with
    | .proxying (.writing written) => some written.target
    | .exchanging (.writing written) => some written.target
    | _ => none

theorem sends_of_askingThenWritingRun :
    ∃ s : State Char TextResponse,
      s.connections.map writing = [["example.com:443"], ["/"]] ∧
      s.Sends specialRules (fun _ => exampleRequest) := by
  have executed : ((machine textCodec specialRules
        (fun _ => exampleRequest) 10).run (machine textCodec specialRules
        (fun _ => exampleRequest) 10).start askingThenWritingRun).map
        (fun s => s.connections.map writing) =
      some [["example.com:443"], ["/"]] := by
    decide +kernel
  obtain ⟨s, ran, written⟩ := Option.map_eq_some_iff.mp executed
  exact ⟨s, written,
    reached_sends (Machine.reached_of_run askingThenWritingRun ran)⟩

end Stack

end Fetchpp

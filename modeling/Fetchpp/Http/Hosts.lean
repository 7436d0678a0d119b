import Fetchpp.Http.Url
import Fetchpp.Lib.Numeral

/-!
# Hosts and the endpoints they become

The host of a URL is a domain name or an address, and an IPv6 address stands in
brackets there.  `to_endpoint` takes the host as it stands in the URL, and the
domain of an endpoint is what the resolver is asked for.
-/

namespace Fetchpp.Http

open Lib

inductive HostKind where
  | domain
  | ipv4
  | ipv6
  deriving DecidableEq, Repr

/-- A host, written without brackets. -/
structure Host where
  kind : HostKind
  text : String
  plain : '[' ∉ text.toList

/-- `url::hostname` of a URL with this host. -/
def Host.hostname (host : Host) : String :=
  match host.kind with
  | .ipv6 => "[" ++ host.text ++ "]"
  | _ => host.text

/-- An `http` or `https` URL with a host, with or without a port. -/
structure WebUrl where
  isSecure : Bool
  host : Host
  port : Option UInt16 := none
  origin : String

namespace WebUrl

def scheme (web : WebUrl) : String :=
  if web.isSecure then "https" else "http"

def endpointPort (web : WebUrl) : UInt16 :=
  web.port.getD (if web.isSecure then 443 else 80)

/-- The URL, as the code looks at it. -/
def url (web : WebUrl) : Url where
  scheme := web.scheme
  hostname := web.host.hostname
  port := (web.port.map (fun port => toString port.toNat)).getD ""
  origin := web.origin

end WebUrl

/-- What is relied on: the default ports, and that a port that does not fit is
truncated. -/
structure UrlRules.Lawful (rules : UrlRules) : Prop where
  http : rules.defaultPort "http" = some 80
  https : rules.defaultPort "https" = some 443
  parsePort : ∀ port : UInt16,
    rules.parsePort (toString port.toNat) = some port.toInt16

/-- What is relied on of a resolver: it takes the name or the address of a
host, and nothing in brackets. -/
structure Resolves (accepts : Host → String → Prop) : Prop where
  text : ∀ host : Host, accepts host host.text
  brackets : ∀ (host : Host) (address : String),
    ¬ accepts host ("[" ++ address ++ "]")

theorem decimal_numeral {text : List Char} {n : Nat}
    (numeral : Numeral text n) : decimal text = some n := by
  have digits : ∀ (text : List Char) (value : Nat),
      (∀ c ∈ text, c.isDigit = true) →
      text.foldl (fun value digit =>
        if digit.isDigit then
          value.map (fun value => 10 * value + (digit.toNat - '0'.toNat))
        else none) (some value) = some (Nat.ofDigitChars 10 text value) := by
    intro text
    induction text with
    | nil => simp
    | cons c text induction =>
        intro value all
        have first := all c (by simp)
        rw [List.foldl_cons, if_pos first, Option.map_some,
          induction _ (fun d member => all d (List.mem_cons_of_mem c member)),
          Nat.ofDigitChars_cons]
  rw [decimal, digits text 0 numeral.digits, numeral.value]

theorem specialRules_lawful : specialRules.Lawful where
  http := rfl
  https := rfl
  parsePort port := by
    have truncated : Int16.ofNat port.toNat = port.toInt16 := by
      apply Int16.toBitVec.inj
      simp
    simp only [specialRules, decimal_numeral (Numeral.of_toString _),
      Option.map_some, truncated]

variable {rules : UrlRules}

theorem safePort_web (lawful : rules.Lawful) (web : WebUrl) :
    safePort rules web.url = .ok web.endpointPort.toInt16 := by
  cases explicit : web.port with
  | none =>
      have absent : web.url.port = "" := by simp [WebUrl.url, explicit]
      have scheme : rules.defaultPort web.url.scheme =
          some web.endpointPort := by
        rw [WebUrl.endpointPort, explicit, Option.getD_none, WebUrl.url,
          WebUrl.scheme]
        cases web.isSecure with
        | false => exact lawful.http
        | true => exact lawful.https
      simp only [safePort, if_pos absent, Url.protocol_dropLast, scheme]
  | some port =>
      have written : web.url.port = toString port.toNat := by
        simp [WebUrl.url, explicit]
      have present : toString port.toNat ≠ "" := by
        intro absent
        apply (Numeral.of_toString port.toNat).nonempty
        rw [absent]
        rfl
      have own : web.endpointPort = port := by
        rw [WebUrl.endpointPort, explicit, Option.getD_some]
      simp only [safePort, written, if_neg present, lawful.parsePort, own]

/-- The port is the one of the URL, although it is signed on the way. -/
theorem toEndpoint_web (lawful : rules.Lawful) (web : WebUrl)
    {isSecure : Bool} (allowed : isSecure = true → web.isSecure = true) :
    toEndpoint rules isSecure web.url =
      .ok ⟨web.host.hostname, web.endpointPort⟩ := by
  have accepted : (isSecure && web.url.protocol != "https:") = false := by
    cases isSecure with
    | false => rfl
    | true =>
        have scheme : web.url.scheme = "https" := by
          simp [WebUrl.url, WebUrl.scheme, allowed rfl]
        simp [Url.protocol_https, scheme]
  simp only [toEndpoint, safePort_web lawful, accepted,
    UInt16.toUInt16_toInt16]
  rfl

theorem Resolves.hostname_iff {accepts : Host → String → Prop}
    (resolves : Resolves accepts) (host : Host) :
    accepts host host.hostname ↔ host.kind ≠ .ipv6 := by
  unfold Host.hostname
  cases host.kind with
  | domain => simp [resolves.text host]
  | ipv4 => simp [resolves.text host]
  | ipv6 => simp [resolves.brackets host host.text]

/-- The endpoint of a URL has its port, and a name that can be resolved
exactly if the host is no IPv6 address. -/
theorem toEndpoint_resolves_iff (lawful : rules.Lawful)
    {accepts : Host → String → Prop} (resolves : Resolves accepts)
    (web : WebUrl) {isSecure : Bool}
    (allowed : isSecure = true → web.isSecure = true) :
    (∃ endpoint, toEndpoint rules isSecure web.url = .ok endpoint ∧
      endpoint.port = web.endpointPort ∧
      accepts web.host endpoint.domain) ↔ web.host.kind ≠ .ipv6 := by
  rw [toEndpoint_web lawful web allowed, ← resolves.hostname_iff]
  constructor
  · rintro ⟨endpoint, made, _, accepted⟩
    obtain rfl := Except.ok.inj made
    exact accepted
  · intro accepted
    exact ⟨_, rfl, rfl, accepted⟩

theorem resolves_text : Resolves (fun host name => name = host.text) where
  text _ := rfl
  brackets host address same := by
    apply host.plain
    rw [← same]
    simp

/-- A port that is negative as a signed number. -/
def highPortUrl : WebUrl where
  isSecure := true
  host := ⟨.domain, "localhost", by decide⟩
  port := some 65535
  origin := "https://localhost:65535"

theorem toEndpoint_of_highPort :
    ∃ endpoint, toEndpoint specialRules true highPortUrl.url = .ok endpoint ∧
      endpoint.port = 65535 ∧ endpoint.domain = "localhost" :=
  (toEndpoint_resolves_iff specialRules_lawful resolves_text highPortUrl
    (fun _ => rfl)).mpr (by decide)

def loopbackUrl : WebUrl where
  isSecure := true
  host := ⟨.ipv6, "::1", by decide⟩
  origin := "https://[::1]"

/-- The brackets get to the resolver. -/
theorem loopback_not_resolved :
    toEndpoint specialRules true loopbackUrl.url = .ok ⟨"[::1]", 443⟩ ∧
      ¬ ∃ endpoint,
        toEndpoint specialRules true loopbackUrl.url = .ok endpoint ∧
        endpoint.port = 443 ∧ endpoint.domain = "::1" := by
  have made : toEndpoint specialRules true loopbackUrl.url =
      .ok ⟨"[::1]", 443⟩ :=
    toEndpoint_web specialRules_lawful loopbackUrl (fun _ => rfl)
  refine ⟨made, ?_⟩
  rintro ⟨endpoint, made', _, domain⟩
  obtain rfl := Except.ok.inj (made.symm.trans made')
  revert domain
  decide

end Fetchpp.Http

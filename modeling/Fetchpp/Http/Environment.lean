import Fetchpp.Http.Precedence

/-!
# The proxies of the environment

`proxy_from_environment` reads one proxy for `http` and one for `https`, each
from a variable that is looked up in lower case before it is in upper case.
Which proxy serves a URL is then told by the scheme of the URL alone.
-/

namespace Fetchpp.Http

/-- `safe_get_env`, over `std::getenv`; an empty value counts for none. -/
def safeGetEnv (getenv : String → Option String) (key : String)
    (default : Option String := none) : Option String :=
  match getenv key with
  | some value => if value.length > 0 then some value else default
  | none => default

def httpVariable (getenv : String → Option String) : Option String :=
  safeGetEnv getenv "http_proxy" (safeGetEnv getenv "HTTP_PROXY")

def httpsVariable (getenv : String → Option String) : Option String :=
  safeGetEnv getenv "https_proxy" (safeGetEnv getenv "HTTPS_PROXY")

section

variable (parseUrl : String → Option UrlRecord) (base64 : String → String)

/-- `emplace` of the value of a variable, if it has one.  The proxy is made
before the map is searched. -/
def emplaceVariable (scheme : ProxyScheme) (value : Option String)
    (proxies : ProxyMap) : Except Exception ProxyMap :=
  match value with
  | none => .ok proxies
  | some sv =>
      match Proxy.parse parseUrl base64 sv with
      | .error exception => .error exception
      | .ok proxy => .ok (proxies.emplace (.scheme scheme) proxy)

/-- `proxy_from_environment` -/
def proxyFromEnvironment (getenv : String → Option String) :
    Except Exception ProxyMap :=
  match emplaceVariable parseUrl base64 .http (httpVariable getenv)
      { entries := [], nodup := List.nodup_nil } with
  | .error exception => .error exception
  | .ok proxies =>
      emplaceVariable parseUrl base64 .https (httpsVariable getenv) proxies

end

/-- The proxy that the value of a variable names. -/
inductive Names (parseUrl : String → Option UrlRecord)
    (base64 : String → String) : Option String → Option Proxy → Prop where
  | nothing : Names parseUrl base64 none none
  | proxy {sv : String} {proxy : Proxy} :
      Proxy.parse parseUrl base64 sv = .ok proxy →
      Names parseUrl base64 (some sv) (some proxy)

/-- The variables of the environment name these proxies. -/
structure NamesProxies (parseUrl : String → Option UrlRecord)
    (base64 : String → String) (getenv : String → Option String)
    (http https : Option Proxy) : Prop where
  http : Names parseUrl base64 (httpVariable getenv) http
  https : Names parseUrl base64 (httpsVariable getenv) https

/-- The proxies for the two schemes, and no other. -/
structure ProxyMap.Holds (http https : Option Proxy) (proxies : ProxyMap) :
    Prop where
  http : proxies.find (.scheme .http) = http
  https : proxies.find (.scheme .https) = https
  others : ∀ key, key ≠ .scheme .http → key ≠ .scheme .https →
    proxies.find key = none

namespace ProxyMap

variable {key other : ProxyMatch} {proxy : Proxy} {proxies : ProxyMap}

theorem not_mem_of_find (absent : proxies.find key = none) :
    key ∉ proxies.entries.map Prod.fst := by
  intro member
  obtain ⟨entry, inside, same⟩ := List.mem_map.mp member
  have different := List.lookup_eq_none_iff.mp absent entry inside
  simp [same] at different

theorem find_emplace (absent : proxies.find key = none) :
    (proxies.emplace key proxy).find other =
      if other = key then some proxy else proxies.find other := by
  rw [emplace, dif_neg (not_mem_of_find absent), find, List.lookup_cons]
  by_cases same : other = key
  · simp [same]
  · rw [if_neg same, beq_false_of_ne same]
    rfl

end ProxyMap

section

variable {parseUrl : String → Option UrlRecord} {base64 : String → String}
  {getenv : String → Option String} {http https : Option Proxy}
  {proxies : ProxyMap}

/-- For a scheme that is not there yet, what the variable names is put there.
-/
theorem emplaceVariable_eq_ok {scheme : ProxyScheme} {value : Option String}
    {named : Option Proxy} {before : ProxyMap}
    (names : Names parseUrl base64 value named)
    (absent : before.find (.scheme scheme) = none) :
    ∃ after, emplaceVariable parseUrl base64 scheme value before = .ok after ∧
      ∀ key, after.find key =
        if key = .scheme scheme then named else before.find key := by
  cases names with
  | nothing =>
      refine ⟨before, rfl, fun key => ?_⟩
      by_cases same : key = .scheme scheme
      · rw [if_pos same, same, absent]
      · rw [if_neg same]
  | @proxy sv proxy parsed =>
      refine ⟨before.emplace (.scheme scheme) proxy, ?_, fun key =>
        ProxyMap.find_emplace absent⟩
      simp only [emplaceVariable, parsed]

theorem proxyFromEnvironment_eq_ok
    (names : NamesProxies parseUrl base64 getenv http https) :
    ∃ proxies, proxyFromEnvironment parseUrl base64 getenv = .ok proxies ∧
      proxies.Holds http https := by
  have nothing : ProxyMap.find { entries := [], nodup := List.nodup_nil }
      (.scheme .http) = none := rfl
  obtain ⟨first, readHttp, afterHttp⟩ := emplaceVariable_eq_ok names.http nothing
  have absent : first.find (.scheme .https) = none := by
    rw [afterHttp]
    rfl
  obtain ⟨proxies, readHttps, afterHttps⟩ :=
    emplaceVariable_eq_ok names.https absent
  refine ⟨proxies, ?_, ?_, ?_, ?_⟩
  · simp only [proxyFromEnvironment, readHttp, readHttps]
  · simp [afterHttps, afterHttp]
  · simp [afterHttps]
  · intro key notHttp notHttps
    rw [afterHttps, if_neg notHttps, afterHttp, if_neg notHttp]
    rfl

/-- The proxy of the environment for a URL. -/
def environmentProxy (http https : Option Proxy) (url : Url) : Option Proxy :=
  if url.scheme = "https" then https
  else if url.scheme = "http" then http
  else none

/-- Which proxy is selected is told by the scheme. -/
theorem ProxyMap.Holds.selects (holds : proxies.Holds http https) {url : Url}
    (proxied : url.Proxied) :
    selectProxy proxies url = .ok (environmentProxy http https url) := by
  have noOrigin : proxies.find (.origin url.origin) = none :=
    holds.others _ (by simp) (by simp)
  by_cases web : url.scheme = "https" ∨ url.scheme = "http"
  · rw [selectProxy_web proxies url web, noOrigin, Option.none_or, schemeEntry,
      holds.https, holds.http]
    rfl
  · have all : url.scheme = "all" := by
      rcases proxied with https | http | all
      · exact (web (.inl https)).elim
      · exact (web (.inr http)).elim
      · exact all
    have known : schemeToProxyScheme url.scheme = .ok .all := by
      rw [all]
      rfl
    rw [selectProxy_known proxies url known, noOrigin, Option.none_or,
      holds.others _ (by simp) (by simp), environmentProxy, all]
    rfl

end

end Fetchpp.Http

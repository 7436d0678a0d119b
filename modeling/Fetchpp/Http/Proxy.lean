import Fetchpp.Http.Authorization
import Fetchpp.Http.Url

/-!
# Proxies

`proxy.cpp` as far as a fetch uses it: the proxies a client knows, how one is
made from a URL, and which of them is taken for a URL.
-/

namespace Fetchpp.Http

inductive ProxyScheme where
  | http
  | https
  | all
  deriving DecidableEq, Repr

/-- `proxy_match`, the key of a proxy. -/
inductive ProxyMatch where
  | scheme (scheme : ProxyScheme)
  | origin (origin : String)
  deriving DecidableEq, Repr

/-- `proxy`; `fields` are those of the request that opens a tunnel. -/
structure Proxy where
  url : Url
  fields : List (String × String) := []
  deriving DecidableEq, Repr

/-- What `skyr::parse` makes of a URL, as far as `proxy::parse` looks at it;
`url` is the `http::url` that is made from the record. -/
structure UrlRecord where
  scheme : String
  username : String := ""
  password : String := ""
  host : Option String
  url : Url
  deriving DecidableEq, Repr

/-- `proxy::parse`, over `skyr::parse` and the base64 encoder. -/
def Proxy.parse (parseUrl : String → Option UrlRecord)
    (base64 : String → String) (sv : String) : Except Exception Proxy :=
  match parseUrl sv with
  | none => .error (.runtimeError "cannot parse proxy url")
  | some record =>
      if record.host.isNone || record.scheme = "" then
        .error (.runtimeError "invalid proxy url")
      else
        let fields :=
          if record.username ≠ "" ∧ record.password ≠ "" then
            [("Proxy-Authorization",
              Basic.toString base64 ⟨record.username, record.password⟩)]
          else []
        .ok ⟨record.url, fields⟩

/-- `proxy_map`, a `flat_map`: no key is there twice. -/
structure ProxyMap where
  entries : List (ProxyMatch × Proxy) := []
  nodup : (entries.map Prod.fst).Nodup := by decide
  deriving DecidableEq, Repr

namespace ProxyMap

def find (proxies : ProxyMap) (key : ProxyMatch) : Option Proxy :=
  proxies.entries.lookup key

/-- `flat_map::emplace`, which keeps the value of a key that is there. -/
def emplace (key : ProxyMatch) (proxy : Proxy) (proxies : ProxyMap) :
    ProxyMap :=
  if absent : key ∈ proxies.entries.map Prod.fst then proxies
  else
    { entries := (key, proxy) :: proxies.entries
      nodup := List.nodup_cons.mpr ⟨absent, proxies.nodup⟩ }

end ProxyMap

def schemeToProxyScheme (scheme : String) : Except Exception ProxyScheme :=
  if scheme = "https" then .ok .https
  else if scheme = "http" then .ok .http
  else if scheme = "all" then .ok .all
  else .error (.runtimeError "bad proxy scheme")

/-- The loop of `select_proxy` over its keys. -/
def findFirst (proxies : ProxyMap) : List ProxyMatch → Option Proxy
  | [] => none
  | key :: keys =>
      match proxies.find key with
      | some proxy => some proxy
      | none => findFirst proxies keys

/-- `select_proxy`: both keys are built before the map is searched. -/
def selectProxy (proxies : ProxyMap) (url : Url) :
    Except Exception (Option Proxy) :=
  match schemeToProxyScheme url.scheme with
  | .error exception => .error exception
  | .ok scheme =>
      .ok (findFirst proxies [.origin url.origin, .scheme scheme])

/-- The schemes `scheme_to_proxy_scheme` knows. -/
def Url.Proxied (url : Url) : Prop :=
  url.scheme = "https" ∨ url.scheme = "http" ∨ url.scheme = "all"

instance (url : Url) : Decidable url.Proxied :=
  inferInstanceAs (Decidable (_ ∨ _))

theorem selectProxy_ok (proxies : ProxyMap) (url : Url) :
    (∃ selected, selectProxy proxies url = .ok selected) ↔ url.Proxied := by
  unfold selectProxy schemeToProxyScheme Url.Proxied
  by_cases https : url.scheme = "https"
  · simp [https]
  · by_cases http : url.scheme = "http"
    · simp [http]
    · by_cases all : url.scheme = "all" <;> simp [https, http, all]

end Fetchpp.Http

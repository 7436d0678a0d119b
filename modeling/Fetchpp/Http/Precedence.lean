import Fetchpp.Http.Proxy

/-!
# Which proxy comes first

A proxy can be registered for an origin, for a scheme or for all URLs, and the
first of the three that is there should serve a URL.  `select_proxy` asks for
the first two only, and for none of them where the scheme has no proxies of its
own.
-/

namespace Fetchpp.Http

variable (proxies : ProxyMap) (url : Url)

/-- The proxy that is registered for `http` or `https`. -/
def schemeEntry : Option Proxy :=
  if url.scheme = "https" then proxies.find (.scheme .https)
  else if url.scheme = "http" then proxies.find (.scheme .http)
  else none

/-- The proxy of the origin, or else of the scheme, or else of all URLs. -/
def preferredProxy : Option Proxy :=
  (proxies.find (.origin url.origin)).or
    ((schemeEntry proxies url).or (proxies.find (.scheme .all)))

/-- The scheme is a known one, and where a proxy is registered for all URLs
another one comes before it. -/
structure Precedes : Prop where
  proxied : url.Proxied
  earlier : proxies.find (.scheme .all) ≠ none → url.scheme ≠ "all" →
    proxies.find (.origin url.origin) ≠ none ∨ schemeEntry proxies url ≠ none

theorem findFirst_cons (key : ProxyMatch) (keys : List ProxyMatch) :
    findFirst proxies (key :: keys) =
      (proxies.find key).or (findFirst proxies keys) := by
  rw [findFirst]
  cases proxies.find key <;> rfl

theorem selectProxy_known {scheme : ProxyScheme}
    (known : schemeToProxyScheme url.scheme = .ok scheme) :
    selectProxy proxies url = .ok ((proxies.find (.origin url.origin)).or
      (proxies.find (.scheme scheme))) := by
  have found : findFirst proxies [.origin url.origin, .scheme scheme] =
      (proxies.find (.origin url.origin)).or
        (proxies.find (.scheme scheme)) := by
    rw [findFirst_cons, findFirst_cons, findFirst, Option.or_none]
  simp only [selectProxy, known, found]

theorem selectProxy_web
    (web : url.scheme = "https" ∨ url.scheme = "http") :
    selectProxy proxies url = .ok ((proxies.find (.origin url.origin)).or
      (schemeEntry proxies url)) := by
  rcases web with https | http
  · have known : schemeToProxyScheme url.scheme = .ok .https := by
      rw [https]
      rfl
    rw [selectProxy_known proxies url known, schemeEntry, if_pos https]
  · have known : schemeToProxyScheme url.scheme = .ok .http := by
      rw [http]
      rfl
    have notHttps : url.scheme ≠ "https" := by
      rw [http]
      decide
    rw [selectProxy_known proxies url known, schemeEntry, if_neg notHttps,
      if_pos http]

theorem selectProxy_all (all : url.scheme = "all") :
    selectProxy proxies url = .ok (preferredProxy proxies url) := by
  have known : schemeToProxyScheme url.scheme = .ok .all := by
    rw [all]
    rfl
  have noEntry : schemeEntry proxies url = none := by
    rw [schemeEntry, all]
    rfl
  rw [selectProxy_known proxies url known, preferredProxy, noEntry,
    Option.none_or]

/-- A fallback that is not asked for is not missed exactly if it is not there
or if something comes before it. -/
theorem or_fallback_iff {α : Type} (first second fallback : Option α) :
    first.or second = first.or (second.or fallback) ↔
      (fallback ≠ none → first ≠ none ∨ second ≠ none) := by
  cases first with
  | some value => simp
  | none =>
      cases second with
      | some value => simp
      | none => cases fallback <;> simp

/-- `select_proxy` selects the preferred proxy exactly if the scheme of the URL
is known and no proxy for all URLs is left over. -/
theorem selectProxy_preferred_iff :
    selectProxy proxies url = .ok (preferredProxy proxies url) ↔
      Precedes proxies url := by
  by_cases all : url.scheme = "all"
  · constructor
    · intro _
      exact ⟨.inr (.inr all), fun _ notAll => (notAll all).elim⟩
    · intro _
      exact selectProxy_all proxies url all
  · by_cases web : url.scheme = "https" ∨ url.scheme = "http"
    · rw [selectProxy_web proxies url web, Except.ok.injEq, preferredProxy,
        or_fallback_iff]
      constructor
      · intro earlier
        exact ⟨web.imp_right .inl, fun fallback _ => earlier fallback⟩
      · intro precedes fallback
        exact precedes.earlier fallback all
    · have unknown : ¬ url.Proxied := by
        rintro (https | http | other)
        · exact web (.inl https)
        · exact web (.inr http)
        · exact all other
      constructor
      · intro selected
        exact (unknown ((selectProxy_ok proxies url).mp ⟨_, selected⟩)).elim
      · intro precedes
        exact (unknown precedes.proxied).elim

def proxiesForAll : ProxyMap where
  entries := [(.scheme .all, { url := localUrl })]

/-- It serves no `http` URL, and one whose scheme is another is not told. -/
theorem proxyForAll_not_selected :
    preferredProxy proxiesForAll localUrl = some { url := localUrl } ∧
      selectProxy proxiesForAll localUrl = .ok none ∧
      selectProxy proxiesForAll { localUrl with scheme := "wss" } =
        .error (.runtimeError "bad proxy scheme") := by
  refine ⟨?_, ?_, ?_⟩
  · decide
  · rfl
  · rfl

end Fetchpp.Http

import Fetchpp.Endpoint

/-!
# URLs, their ports and their endpoints

`url.cpp` and `to_endpoint`.  The parser of URLs is not part of the library:
a `Url` is what the parsed record answers, and the two functions of its class
that read a port are the fields of `UrlRules`.
-/

namespace Fetchpp.Http

/-- The exceptions of the standard library that the code throws, with their
text. -/
inductive Exception where
  /-- `std::runtime_error` -/
  | runtimeError (what : String)
  /-- `std::domain_error` -/
  | domainError (what : String)
  deriving DecidableEq, Repr

/-- `http::url`; `port` is empty when the URL leaves it to the scheme. -/
structure Url where
  scheme : String
  hostname : String
  port : String := ""
  origin : String
  deriving DecidableEq, Repr

def Url.protocol (uri : Url) : String :=
  uri.scheme ++ ":"

/-- `url::default_port`, and `url::port<std::int16_t>` on the text of a port. -/
structure UrlRules where
  defaultPort : String → Option UInt16
  parsePort : String → Option Int16

variable (rules : UrlRules)

/-- `safe_port`, whose result is signed in the source. -/
def safePort (uri : Url) : Except Exception Int16 :=
  if uri.port = "" then
    let scheme := String.ofList uri.protocol.toList.dropLast
    match rules.defaultPort scheme with
    | some port => .ok port.toInt16
    | none => .error (.domainError "cannot deduce port")
  else
    match rules.parsePort uri.port with
    | some port => .ok port
    | none => .error (.domainError "cannot deduce port")

def isSslInvolved (uri : Url) : Bool :=
  if uri.protocol ≠ "" then uri.protocol = "https:"
  else rules.parsePort uri.port = some 443

/-- `to_endpoint`: the port is deduced before the protocol is checked. -/
def toEndpoint (isSecure : Bool) (url : Url) :
    Except Exception (Endpoint isSecure) :=
  match safePort rules url with
  | .error exception => .error exception
  | .ok port =>
      if isSecure && url.protocol != "https:" then
        .error (.domainError "invalid url for secure endpoint")
      else
        .ok ⟨url.hostname, port.toUInt16⟩

def decimal : List Char → Option Nat :=
  List.foldl (fun value digit =>
    if digit.isDigit then
      value.map (fun value => 10 * value + (digit.toNat - '0'.toNat))
    else none) (some 0)

/-- The default ports of the special schemes; a port is read as a decimal
number and truncated. -/
def specialRules : UrlRules where
  defaultPort scheme :=
    if scheme = "http" ∨ scheme = "ws" then some 80
    else if scheme = "https" ∨ scheme = "wss" then some 443
    else if scheme = "ftp" then some 21
    else none
  parsePort port := (decimal port.toList).map Int16.ofNat

def localUrl : Url where
  scheme := "http"
  hostname := "localhost"
  origin := "http://localhost"

/-- The port of the URL is its own and can be read, or its scheme has one. -/
def Url.hasPort (url : Url) : Bool :=
  if url.port = "" then (rules.defaultPort url.scheme).isSome
  else (rules.parsePort url.port).isSome

@[simp] theorem Url.protocol_dropLast (url : Url) :
    String.ofList url.protocol.toList.dropLast = url.scheme := by
  simp [Url.protocol]

theorem Url.protocol_https (url : Url) :
    url.protocol = "https:" ↔ url.scheme = "https" := by
  constructor
  · intro secure
    have ending : ("https:" : String) = "https" ++ ":" := rfl
    rw [Url.protocol, ending] at secure
    exact String.append_left_inj _ |>.mp secure
  · intro secure
    rw [Url.protocol, secure]
    rfl

theorem Url.protocol_ne_empty (url : Url) : url.protocol ≠ "" := by
  intro empty
  have lengths := congrArg String.length empty
  simp [Url.protocol] at lengths

@[simp] theorem isSslInvolved_eq (url : Url) :
    isSslInvolved rules url = decide (url.scheme = "https") := by
  simp [isSslInvolved, url.protocol_ne_empty, url.protocol_https]

theorem safePort_ok (url : Url) :
    (∃ port, safePort rules url = .ok port) ↔ url.hasPort rules := by
  unfold safePort Url.hasPort
  by_cases empty : url.port = ""
  · cases deduced : rules.defaultPort url.scheme <;> simp [empty, deduced]
  · cases parsed : rules.parsePort url.port <;> simp [empty]

theorem toEndpoint_ok (isSecure : Bool) (url : Url) :
    (∃ endpoint, toEndpoint rules isSecure url = .ok endpoint) ↔
      url.hasPort rules ∧ (isSecure = true → url.scheme = "https") := by
  rw [← safePort_ok rules url]
  unfold toEndpoint
  cases deduced : safePort rules url with
  | error exception => simp
  | ok port =>
      cases isSecure with
      | false => simp
      | true =>
          by_cases secure : url.scheme = "https" <;>
            simp [secure, url.protocol_https]

end Fetchpp.Http

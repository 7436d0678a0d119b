/-!
# Endpoints

`endpoint.hpp` and `endpoint.cpp`.  The kind of a session's endpoint is also
the kind of its transport.
-/

namespace Fetchpp

/-- `basic_endpoint` -/
structure Endpoint (isSecure : Bool) where
  domain : String
  port : UInt16
  deriving DecidableEq, Repr

/-- `base_endpoint::host` -/
def Endpoint.host {isSecure : Bool} (endpoint : Endpoint isSecure) : String :=
  endpoint.domain ++ ":" ++ toString endpoint.port

abbrev SecureEndpoint := Endpoint true
abbrev PlainEndpoint := Endpoint false

/-- `operator==` for endpoints of one kind; overload resolution prefers it to
the one for two kinds. -/
def Endpoint.beq {isSecure : Bool} (lhs rhs : Endpoint isSecure) : Bool :=
  lhs.port == rhs.port && lhs.domain == rhs.domain

/-- `operator==` for endpoints of two kinds -/
def Endpoint.beqKind {isSecure₁ isSecure₂ : Bool} (_ : Endpoint isSecure₁)
    (_ : Endpoint isSecure₂) : Bool :=
  isSecure₁ == isSecure₂

theorem Endpoint.beq_iff {isSecure : Bool} {lhs rhs : Endpoint isSecure} :
    lhs.beq rhs = true ↔ lhs = rhs := by
  cases lhs
  cases rhs
  simp [beq, and_comm]

theorem Endpoint.beqKind_of_ne {isSecure₁ isSecure₂ : Bool}
    (kinds : isSecure₁ ≠ isSecure₂) (lhs : Endpoint isSecure₁)
    (rhs : Endpoint isSecure₂) : lhs.beqKind rhs = false :=
  beq_false_of_ne kinds

structure TunnelEndpoint where
  proxy : PlainEndpoint
  target : SecureEndpoint
  deriving DecidableEq, Repr

/-- `operator==` -/
def TunnelEndpoint.beq (left right : TunnelEndpoint) : Bool :=
  left.proxy.beq right.proxy && left.target.beq right.target

theorem TunnelEndpoint.beq_iff {left right : TunnelEndpoint} :
    left.beq right = true ↔ left = right := by
  cases left
  cases right
  simp [beq, Endpoint.beq_iff]

/-- The endpoint of a `session`, which fixes its type of transport. -/
inductive SessionEndpoint where
  /-- `tcp_async_transport` -/
  | plain (endpoint : PlainEndpoint)
  /-- `ssl_async_transport` -/
  | secure (endpoint : SecureEndpoint)
  /-- `tunnel_async_transport` -/
  | tunnel (endpoint : TunnelEndpoint)
  deriving DecidableEq, Repr

/-- The transport is a `tunnel_async_transport`, not a
`basic_async_transport`. -/
def SessionEndpoint.isTunnel : SessionEndpoint → Bool
  | .tunnel _ => true
  | _ => false

/-- What `get_session` makes of the `operator==` of the three types: a session
with an endpoint of another type is passed over. -/
def SessionEndpoint.beq : SessionEndpoint → SessionEndpoint → Bool
  | .plain lhs, .plain rhs => lhs.beq rhs
  | .secure lhs, .secure rhs => lhs.beq rhs
  | .tunnel left, .tunnel right => left.beq right
  | _, _ => false

theorem SessionEndpoint.beq_iff {lhs rhs : SessionEndpoint} :
    lhs.beq rhs = true ↔ lhs = rhs := by
  cases lhs <;> cases rhs <;>
    simp [beq, Endpoint.beq_iff, TunnelEndpoint.beq_iff]

end Fetchpp

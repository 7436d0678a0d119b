/-!
# Error codes

Only the values that the library itself compares or produces are named; every
other code a socket, a resolver, a TLS engine or a parser may report is
`other`.  A default constructed `error_code` is `none`.
-/

namespace Fetchpp

inductive ErrorCode where
  /-- `net::error::operation_aborted` -/
  | operationAborted
  /-- `net::error::timed_out` -/
  | timedOut
  /-- `net::error::connection_refused` -/
  | connectionRefused
  /-- `net::error::eof` -/
  | eof
  /-- `net::ssl::error::stream_truncated` -/
  | streamTruncated
  /-- `net::ssl::error::unspecified_system_error` -/
  | unspecifiedSystemError
  | other (value : Nat)
  deriving DecidableEq, Repr

/-- `GracefulShutdown` of `basic_transport.hpp`. -/
inductive GracefulShutdown where
  | yes
  | no
  deriving DecidableEq, Repr

end Fetchpp

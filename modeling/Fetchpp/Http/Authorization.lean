/-!
# Authorizations

`authorization.cpp`, as far as a proxy uses it.  The base64 encoder is Beast's.
-/

namespace Fetchpp.Http

/-- `authorization::basic` -/
structure Basic where
  user : String
  password : String
  deriving DecidableEq, Repr

/-- `to_string` of an `authorization::basic` -/
def Basic.toString (base64 : String → String) (basic : Basic) : String :=
  "Basic " ++ base64 (basic.user ++ ":" ++ basic.password)

end Fetchpp.Http

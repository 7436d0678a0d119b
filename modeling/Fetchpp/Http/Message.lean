import Fetchpp.ErrorCode
import Fetchpp.Lib.Framing

/-!
# Messages

Requests as far as the transports look at them, and the parser of responses,
which is Beast's.
-/

namespace Fetchpp.Http

/-- `http::verb`; only two of the verbs are ever compared. -/
inductive Verb where
  | connect
  | head
  | other (verb : String)
  deriving DecidableEq, Repr

structure Request where
  method : Verb
  target : String
  version : Nat := 11
  fields : List (String × String) := []
  deriving DecidableEq, Repr

/-- `fields::set`: the field replaces those of the same name. -/
def Request.set (name value : String) (request : Request) : Request :=
  { request with fields :=
      request.fields.filter (fun field => field.1 ≠ name) ++ [(name, value)] }

/-- The requests for which `skip(true)` is called on the parser, so that the
response is taken to end with its header. -/
def Request.skipsBody (request : Request) : Bool :=
  request.method = .connect || request.method = .head

/-- `response_parser`, without and with `skip(true)`, and the status of the
response it releases. -/
structure Codec (Byte Response : Type) where
  parser : Bool → Lib.Framing Byte Response ErrorCode
  status : Response → Nat

structure Codec.Lawful {Byte Response : Type} (codec : Codec Byte Response) :
    Prop where
  parser : ∀ skip, (codec.parser skip).Lawful
  /-- with `skip(true)` a response ends with its header, never with the stream -/
  skip_finish : ∀ {bytes used response},
    (codec.parser true).parse bytes = .more used →
    (codec.parser true).finish bytes ≠ .ok response

end Fetchpp.Http

import Tenancy.Http.Status
import Tenancy.Http.Url

/-!
# Exchanges with a server

A request that is sent and the answer that comes back. A request with a bad address, or with a header
that may not be sent, is never sent; an exchange can also fail on its way.
-/

namespace Tenancy.Http

structure Outgoing where
  method : String
  url : String
  /-- Names in lower case, with values. -/
  headers : List (String × String) := []
  body : Option String := none
  deriving DecidableEq, Repr, Inhabited

structure Reply where
  status : Nat
  body : String := ""
  /-- Some bytes of the body were no text, and U+FFFD stands for them. -/
  garbled : Bool := false
  deriving DecidableEq, Repr, Inhabited

namespace Reply

def isSuccess (r : Reply) : Bool := Http.isSuccess r.status

end Reply

inductive TransportFault where
  /-- The request could not be sent. -/
  | unsendable
  /-- Nothing came back. -/
  | broken
  /-- An answer with this status began to come back, and not all of it came. -/
  | cut (status : Nat)
  deriving DecidableEq, Repr, Inhabited

namespace TransportFault

def text : TransportFault → String
  | unsendable => "builder error"
  | broken => "error sending request"
  | cut _ => "error decoding response body"

end TransportFault

/-- The value of a header may be sent: it has no control characters but tabs. -/
def headerOk (value : String) : Bool :=
  value.toList.all fun c => c = '\t' || (0x20 ≤ c.toNat && c.toNat ≠ 0x7F)

namespace Outgoing

def isSendable (r : Outgoing) : Bool :=
  (Url.parse? r.url).isSome && r.headers.all fun h => headerOk h.2

end Outgoing

end Tenancy.Http

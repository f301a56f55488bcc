import Tenancy.Call
import Tenancy.Rest

/-!
# The engine that keeps keys over HTTP

What is kept at a path comes under `data`, or else is the whole answer. Nothing is there if the answer
is 404, or 400 with the remark that no engine is mounted.
-/

namespace Tenancy.Backend.Vault

/-- The answer says that nothing is there. -/
def isAbsent (r : Http.Reply) : Bool :=
  r.status = 404 ||
    (r.status = 400 && Text.occurs "No secret engine mount".toList r.body.toList)

def contents (body : Json) : Json := (body.member? "data").getD body

/-- What an answer to a reading comes to. -/
def found (c : Rest.Client) (path : String) (r : Http.Reply) : Except Error (Option Json) :=
  if isAbsent r then .ok none
  else if r.isSuccess then
    (Rest.decodeBody (Reading.anything 0) r).map fun body => some (contents body)
  else .error (c.failed "GET" path r)

def perform (c : Rest.Client) : (call : VaultCall) → WireJob call.Reply
  | .read path => do liftExcept (found c path (← c.send "GET" path none))
  | .write path body => discard (c.expect "POST" path (some body))
  | .delete path => discard (c.expect "DELETE" path none)

end Tenancy.Backend.Vault

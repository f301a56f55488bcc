import Tenancy.Call
import Tenancy.Rest
import Tenancy.Text.Base64

/-!
# Delivering notices over HTTP

A notice is posted to the address of a hook as JSON. A header tells the hook whether it is blocking, and
the credentials go into another one. Whatever status comes back is the answer; the rest of it is not
read.
-/

namespace Tenancy.Backend.HookDelivery

def authorization : Credentials → String
  | .bearer token => "Bearer " ++ token
  | .basic username password =>
    "Basic " ++ Text.Base64.encode (Text.utf8Encode (username ++ ":" ++ password.getD ""))

def request (url : String) (n : Notice) (blocking : Bool) (c : Option Credentials) :
    Http.Outgoing where
  method := "POST"
  url := url
  headers := [("block", if blocking then "true" else "false"), ("content-type", "application/json")] ++
    (c.map fun c => ("authorization", authorization c)).toList
  body := some n.toJson.compact

def post (url : String) (n : Notice) (blocking : Bool) (c : Option Credentials) : WireJob Nat := do
  match ← WireJob.exchange (request url n blocking c) with
  | .ok r => return r.status
  | .error (.cut status) => return status
  | .error f => throw (.unavailable "hook" (.reported ("POST " ++ url ++ ": " ++ f.text)))

end Tenancy.Backend.HookDelivery

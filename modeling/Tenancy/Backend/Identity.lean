import Tenancy.Call
import Tenancy.Rest

/-!
# The identity provider over HTTP

A group is searched for by its name; since a search may find more, the first group of exactly that name
is taken.
-/

namespace Tenancy.Backend.Identity

def searchPath (name : String) : String := "groups?search=" ++ name ++ "&exact=true"

def groupPath (id : String) : String := "groups/" ++ id

def perform (c : Rest.Client) : (call : IdentityCall) → WireJob call.Reply
  | .find n => do
    let groups ← c.getJson (searchPath n) (Reading.list IdentityGroup.decode)
    return (groups.getD []).find? fun g => g.name = n
  | .create g => discard (c.expect "POST" "groups" (some g.toJson))
  | .delete id => discard (c.expect "DELETE" (groupPath id) none)

end Tenancy.Backend.Identity

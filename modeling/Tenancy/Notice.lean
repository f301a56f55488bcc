import Tenancy.Tenant.Codec

/-!
# What a hook is told

A notice tells a hook what happens to a tenant and what the tenant declares. It may be sent with
credentials, which are not shown when they are printed for a log.
-/

namespace Tenancy

/-- An event and what the tenant declares at that time. -/
structure Notice where
  spec : Spec
  event : Event
  deriving DecidableEq, Repr, Inhabited

namespace Notice

def toJson (n : Notice) : Json :=
  Json.ofMembers [("tenantspec", n.spec.toJson), ("eventtype", n.event.toJson)]

end Notice

inductive Credentials where
  | bearer (token : String)
  | basic (username : String) (password : Option String)
  deriving DecidableEq, Repr, Inhabited

namespace Credentials

def redacted : Credentials → String
  | bearer _ => "Bearer(<redacted>)"
  | basic username _ => "Basic(" ++ username ++ ", <redacted>)"

/-- The credentials that a secret holds: a token, or else a user name. -/
def ofSecret? (data : Dict String) : Option Credentials :=
  match data.get? "token" with
  | some token => some (.bearer token)
  | none => (data.get? "username").map fun username => .basic username (data.get? "password")

end Credentials

end Tenancy

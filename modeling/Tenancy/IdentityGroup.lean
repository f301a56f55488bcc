import Tenancy.Json.Record

/-!
# Identity groups

The identity provider keeps groups of users. Every tenant has one group, for its administrators.
-/

namespace Tenancy

structure IdentityGroup where
  /-- The identifier that the provider gives. -/
  id : Option String := none
  name : String
  path : String := ""
  deriving DecidableEq, Repr, Inhabited

namespace IdentityGroup

def adminName (tenant : String) : String := tenant ++ "-tenant-admin"

/-- The group of a tenant's administrators, before the provider has seen it. -/
def admin (tenant : String) : IdentityGroup where
  name := adminName tenant
  path := "/" ++ adminName tenant

def record : Record IdentityGroup :=
  Record.const IdentityGroup.mk
    |>.also (.optional "id" Reading.text)
    |>.also (.required "name" Reading.text)
    |>.also (.default "path" Reading.text "")

def decode : Reading.Decoder IdentityGroup := record.decode

def toJson (g : IdentityGroup) : Json :=
  Json.ofMembers <|
    Json.memberOf "id" .string g.id ++ [("name", .string g.name), ("path", .string g.path)]

end IdentityGroup

end Tenancy

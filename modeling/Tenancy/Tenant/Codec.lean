import Tenancy.Tenant.Basic

/-!
# Tenants in JSON

Each part of a tenant has a record that decodes it and a printer beside it. A part is written as an
object in which fields without a value are left out, and read from such an object or from the array of
its fields. Fields with a default may be missing; null stands only for a missing value of a field that
may have none.
-/

namespace Tenancy

namespace Resource

def record : Record Resource :=
  Record.const Resource.mk
    |>.also (.required "type" Reading.text)
    |>.also (.default "xnames" (Reading.list Reading.text) [])
    |>.also (.optional "hsmpartitionname" Reading.text)
    |>.also (.optional "hsmgrouplabel" Reading.text)
    |>.also (.default "enforceexclusivehsmgroups" Reading.boolean false)

def decode : Reading.Decoder Resource := record.decode

def toJson (r : Resource) : Json :=
  Json.ofMembers <|
    [("type", .string r.label), ("xnames", Json.strings r.members)] ++
    Json.memberOf "hsmpartitionname" .string r.partition ++
    Json.memberOf "hsmgrouplabel" .string r.group ++
    [("enforceexclusivehsmgroups", .bool r.exclusive)]

end Resource

namespace KeySettings

def record : Record KeySettings :=
  Record.const KeySettings.mk
    |>.also (.default "enablekms" Reading.boolean false)
    |>.also (.default "keyname" Reading.text "key1")
    |>.also (.default "keytype" Reading.text "rsa-3072")

def decode : Reading.Decoder KeySettings := record.decode

def toJson (k : KeySettings) : Json :=
  Json.ofMembers [("enablekms", .bool k.enabled), ("keyname", .string k.keyName),
    ("keytype", .string k.keyType)]

end KeySettings

namespace KeyRecord

def record : Record KeyRecord :=
  Record.const KeyRecord.mk
    |>.also (.optional "transitname" Reading.text)
    |>.also (.optional "keyname" Reading.text)
    |>.also (.optional "keytype" Reading.text)
    |>.also (.optional "publickey" Reading.text)

def decode : Reading.Decoder KeyRecord := record.decode

def toJson (k : KeyRecord) : Json :=
  Json.ofMembers <|
    Json.memberOf "transitname" .string k.domain ++
    Json.memberOf "keyname" .string k.keyName ++
    Json.memberOf "keytype" .string k.keyType ++
    Json.memberOf "publickey" .string k.publicKey

end KeyRecord

namespace Phase

def toJson (p : Phase) : Json := .string p.name

def decode : Reading.Decoder Phase := Reading.choice ofName?

end Phase

namespace Spec

def record : Record Spec :=
  Record.const Spec.mk
    |>.also (.required "tenantname" Reading.text)
    |>.also (.default "childnamespaces" (Reading.list Reading.text) [])
    |>.also (.default "tenantresources" (Reading.list Resource.decode) [])
    |>.also (.default "tenantkms" KeySettings.decode {})
    |>.also (.default "tenanthooks" (Reading.list Hook.decode) [])
    |>.also (.default "requiresvaultkeyupdate" Reading.boolean false)

def decode : Reading.Decoder Spec := record.decode

def toJson (s : Spec) : Json :=
  Json.ofMembers [("tenantname", .string s.name), ("childnamespaces", Json.strings s.children),
    ("tenantresources", .array (s.resources.map Resource.toJson)), ("tenantkms", s.keys.toJson),
    ("tenanthooks", .array (s.hooks.map Hook.toJson)),
    ("requiresvaultkeyupdate", .bool s.requiresKeyUpdate)]

end Spec

namespace Status

def record : Record Status :=
  Record.const Status.mk
    |>.also (.optional "state" Phase.decode)
    |>.also (.optional "uuid" Reading.text)
    |>.also (.default "childnamespaces" (Reading.list Reading.text) [])
    |>.also (.default "tenantresources" (Reading.list Resource.decode) [])
    |>.also (.default "tenanthooks" (Reading.list Hook.decode) [])
    |>.also (.default "tenantkms" KeyRecord.decode {})
    |>.also (.optional "lastdeployed" Reading.text)

def decode : Reading.Decoder Status := record.decode

def toJson (s : Status) : Json :=
  Json.ofMembers <|
    Json.memberOf "state" Phase.toJson s.phase ++
    Json.memberOf "uuid" .string s.uuid ++
    [("childnamespaces", Json.strings s.children),
      ("tenantresources", .array (s.resources.map Resource.toJson)),
      ("tenanthooks", .array (s.hooks.map Hook.toJson)), ("tenantkms", s.keys.toJson)] ++
    Json.memberOf "lastdeployed" .string s.lastDeployed

end Status

namespace Tenant

def apiVersion : String := "tapms.hpe.com/v1alpha3"

def record : Record Tenant :=
  Record.const Tenant.mk
    |>.also (.required "metadata" Metadata.decode)
    |>.also (.required "spec" Spec.decode)
    |>.also (.nullable "status" Status.decode)

def decode : Reading.Decoder Tenant := record.decode

def toJson (t : Tenant) : Json :=
  Json.ofMembers <|
    [("apiVersion", .string apiVersion), ("kind", .string "Tenant"),
      ("metadata", t.metadata.toJson), ("spec", t.spec.toJson)] ++
    Json.memberOf "status" Status.toJson t.status

end Tenant

end Tenancy

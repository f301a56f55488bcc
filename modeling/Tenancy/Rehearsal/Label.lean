import Tenancy.Call

/-!
# Calls in words

A call is written down as a line that says which system is asked for what, and with it what is handed
over, where a call hands something over. Scripts of failures pick calls by their lines.
-/

namespace Tenancy

def Collection.toJson (c : Collection) : Json :=
  Json.ofMembers [("name", .string c.name), ("description", .string c.description),
    ("tags", Json.strings c.tags), ("members", Json.strings c.members),
    ("exclusive_group", Json.ofText? c.marker), ("is_exclusive", .bool c.isTenantExclusive)]

def Credentials.toJson : Credentials → Json
  | bearer token => Json.ofMembers [("bearer", .string token)]
  | basic username password =>
    Json.ofMembers [("username", .string username), ("password", Json.ofText? password)]

namespace StoreCall

def label : StoreCall → String
  | get space name => "store.get " ++ space ++ "/" ++ name
  | replaceStatus _ _ => "store.replace_status"
  | addFinalizer _ f => "store.add_finalizer " ++ f
  | removeFinalizer _ f => "store.remove_finalizer " ++ f
  | clearKeyUpdate _ => "store.clear_key_update"

def body? : StoreCall → Option Json
  | replaceStatus _ s => some s.toJson
  | _ => none

end StoreCall

namespace HierarchyCall

def label : HierarchyCall → String
  | anchorExists p n => "ns.anchor_exists " ++ p ++ "/" ++ n
  | createAnchor p n => "ns.create_anchor " ++ p ++ "/" ++ n
  | deleteAnchor p n => "ns.delete_anchor " ++ p ++ "/" ++ n
  | getSecret space n => "ns.get_secret " ++ space ++ "/" ++ n
  | createSecret space s => "ns.create_secret " ++ space ++ "/" ++ s.metadata.name.getD ""

def body? : HierarchyCall → Option Json
  | createSecret _ s => some s.toJson
  | _ => none

end HierarchyCall

namespace HardwareCall

def label : HardwareCall → String
  | get k n => "hsm.get " ++ k.name ++ " " ++ n
  | create k c => "hsm.create " ++ k.name ++ " " ++ c.name
  | delete k n => "hsm.delete " ++ k.name ++ " " ++ n
  | add k n m => "hsm.add " ++ k.name ++ " " ++ n ++ " " ++ m
  | remove k n m => "hsm.remove " ++ k.name ++ " " ++ n ++ " " ++ m
  | listGroups => "hsm.list_groups"
  | listComponents type role => "hsm.list_components " ++ type ++ "/" ++ role

def body? : HardwareCall → Option Json
  | create _ c => some c.toJson
  | _ => none

end HardwareCall

namespace IdentityCall

def label : IdentityCall → String
  | find n => "id.find " ++ n
  | create g => "id.create " ++ g.name
  | delete id => "id.delete " ++ id

def body? : IdentityCall → Option Json
  | create g => some g.toJson
  | _ => none

end IdentityCall

namespace VaultCall

def label : VaultCall → String
  | read p => "vault.read " ++ p
  | write p _ => "vault.write " ++ p
  | delete p => "vault.delete " ++ p

def body? : VaultCall → Option Json
  | write _ body => some body
  | _ => none

end VaultCall

namespace HookCall

def label : HookCall → String
  | post url _ _ _ => "hook.post " ++ url
  | listGlobal => "hook.list_globals"
  | readSecret space n => "secret.read " ++ space ++ "/" ++ n

def body? : HookCall → Option Json
  | post _ n blocking c => some <| Json.ofMembers [("payload", n.toJson), ("blocking", .bool blocking),
      ("auth", (c.map Credentials.toJson).getD .null),
      ("auth_debug", Json.ofText? (c.map Credentials.redacted))]
  | _ => none

end HookCall

namespace Call

def label : Call → String
  | store c => c.label
  | hierarchy c => c.label
  | hardware c => c.label
  | identity c => c.label
  | vault c => c.label
  | hook c => c.label

/-- What a call hands over. -/
def body? : Call → Option Json
  | store c => c.body?
  | hierarchy c => c.body?
  | hardware c => c.body?
  | identity c => c.body?
  | vault c => c.body?
  | hook c => c.body?

end Call

end Tenancy

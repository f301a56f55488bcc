import Tenancy.Metadata

/-!
# Hooks

A hook is an address that is told about events in the life of a tenant. A blocking hook that fails
stops the transition it was told about. Credentials for a hook are kept in a secret, and the hook only
names it.
-/

namespace Tenancy

inductive Event where
  | create
  | update
  | delete
  deriving DecidableEq, Repr, Inhabited

namespace Event

def name : Event → String
  | create => "CREATE"
  | update => "UPDATE"
  | delete => "DELETE"

def ofName? : String → Option Event
  | "CREATE" => some create
  | "UPDATE" => some update
  | "DELETE" => some delete
  | _ => none

theorem ofName?_eq_some_iff {s : String} {e : Event} : ofName? s = some e ↔ s = e.name := by
  constructor
  · intro h
    unfold ofName? at h
    split at h <;> cases h <;> rfl
  · rintro rfl
    cases e <;> rfl

def toJson (e : Event) : Json := .string e.name

def decode : Reading.Decoder Event := Reading.choice ofName?

end Event

structure SecretRef where
  name : String
  space : String
  deriving DecidableEq, Repr, Inhabited

namespace SecretRef

def record : Record SecretRef :=
  Record.const SecretRef.mk
    |>.also (.required "secretname" Reading.text)
    |>.also (.required "secretnamespace" Reading.text)

def decode : Reading.Decoder SecretRef := record.decode

def toJson (r : SecretRef) : Json :=
  Json.ofMembers [("secretname", .string r.name), ("secretnamespace", .string r.space)]

end SecretRef

/-- An address to tell about events. -/
structure Hook where
  name : String
  url : String
  events : List Event := []
  blocking : Bool := false
  credentials : Option SecretRef := none
  deriving DecidableEq, Repr, Inhabited

namespace Hook

def subscribesTo (h : Hook) (e : Event) : Bool := h.events.contains e

def record : Record Hook :=
  Record.const Hook.mk
    |>.also (.required "name" Reading.text)
    |>.also (.required "url" Reading.text)
    |>.also (.default "eventtypes" (Reading.list Event.decode) [])
    |>.also (.default "blockingcall" Reading.boolean false)
    |>.also (.optional "hookcredentials" SecretRef.decode)

def decode : Reading.Decoder Hook := record.decode

def toJson (h : Hook) : Json :=
  Json.ofMembers <|
    [("name", .string h.name), ("url", .string h.url),
      ("eventtypes", .array (h.events.map Event.toJson)), ("blockingcall", .bool h.blocking)] ++
    Json.memberOf "hookcredentials" SecretRef.toJson h.credentials

end Hook

/-- A hook that is registered in the cluster for every tenant. -/
structure GlobalHook where
  metadata : Metadata
  hook : Hook
  deriving DecidableEq, Repr, Inhabited

namespace GlobalHook

def record : Record GlobalHook :=
  Record.const GlobalHook.mk
    |>.also (.required "metadata" Metadata.decode)
    |>.also (.required "spec" Hook.decode)

def decode : Reading.Decoder GlobalHook := record.decode

def toJson (g : GlobalHook) : Json :=
  Json.ofMembers [("apiVersion", .string "tapms.hpe.com/v1alpha1"),
    ("kind", .string "GlobalTenantHook"), ("metadata", g.metadata.toJson), ("spec", g.hook.toJson)]

end GlobalHook

end Tenancy

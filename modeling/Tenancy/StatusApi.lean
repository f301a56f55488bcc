import Tenancy.Http.Serving
import Tenancy.Tenant.Codec
import Tenancy.Text.Percent

/-!
# The status of tenants, to be read

Two routes show the tenants that the operator knows: all of them in the order of their names, and the
one with a certain name or identifier. Anything else is a page that does not exist.
-/

namespace Tenancy.StatusApi

open Http (Incoming Served)

def message (text : String) : Json := Json.ofMembers [("message", .string text)]

def notFound (text : String) : Served := ⟨404, some (message text)⟩

/-- The tenants in the order of their names; tenants of one name stay in their order. -/
def sorted (catalog : List Tenant) : List Tenant :=
  catalog.mergeSort fun a b => a.metadata.anyName ≤ b.metadata.anyName

def listed (catalog : List Tenant) : Served :=
  ⟨200, some (Json.ofMembers [("apiVersion", .string Tenant.apiVersion), ("kind", .string "TenantList"),
    ("items", .array ((sorted catalog).map Tenant.toJson))])⟩

/-- A tenant has this name or identifier. -/
def isNamed (id : String) (t : Tenant) : Bool := t.metadata.anyName == id || t.uuid == some id

/-- The tenant with a name or identifier. -/
def shown (catalog : List Tenant) (id : String) : Served :=
  match catalog.find? (isNamed id) with
  | some t => ⟨200, some t.toJson⟩
  | none => notFound ("Tenant with name/uuid '" ++ id ++ "' not found.")

inductive Route where
  | list
  /-- The last part of the path, as it is written there. -/
  | show (segment : List Char)
  | unknown
  deriving DecidableEq, Repr

def Route.ofPath (path : List Char) : Route :=
  if path = "/apis/tapms/v1/tenants".toList then .list
  else match Text.dropStart? "/apis/tapms/v1/tenant/".toList path with
    | some segment => if segment.isEmpty || segment.contains '/' then .unknown else .show segment
    | none => .unknown

def answer (catalog : List Tenant) (r : Incoming) : Served :=
  match Route.ofPath r.path with
  | .list => r.read (listed catalog)
  | .show segment => r.read (match Text.Percent.decode? segment with
    | some id => shown catalog id
    | none => ⟨400, none⟩)
  | .unknown => r.always (notFound "Page not found")

/-- The place of a tenant in the cluster. Outside all namespaces is another place than in the one with
the empty name. -/
def place (t : Tenant) : Option String × String := (t.metadata.space, t.metadata.anyName)

/-- Take in a tenant, in place of the one that was known there. -/
def note (known : List Tenant) (t : Tenant) : List Tenant :=
  if known.any fun k => place k = place t then
    known.map fun k => if place k = place t then t else k
  else known ++ [t]

/-- The tenants that are known after some were seen one after the other. -/
def catalogOf (seen : List Tenant) : List Tenant := seen.foldl note []

end Tenancy.StatusApi

import Tenancy.Lifecycle.Deploy

/-!
# Taking a tenant down

Children go before the root namespace, namespaces before hardware, hardware before the
administrators' group, and the encryption domain and the hooks come last. Only then the finalizer that
holds the tenant in the store is released. A namespace that cannot be deleted yet ends the pass, which
is repeated later.
-/

namespace Tenancy.Lifecycle

/-- The finalizer that holds a tenant until it is taken down. -/
def tenantFinalizer : String := "tapms.hpe.com/finalizer"

/-- Write that a tenant is being deleted, unless that is recorded. -/
def markDeleting (t : Tenant) : Job Status :=
  if t.phase = .deleting then pure t.recorded
  else updateStatus t fun s => { s with phase := some .deleting }

def deleteChildren (tenant : String) : List String → Job Removal
  | [] => pure .removed
  | child :: rest => do
    match ← Hierarchy.deleteChild tenant child with
    | .blocked => pure .blocked
    | _ => deleteChildren tenant rest

/-- All child namespaces of a tenant, declared or recorded. -/
def allChildren (t : Tenant) (recorded : Status) : Names :=
  Names.union t.desiredChildren recorded.children

def deleteNamespaces (settings : Settings) (t : Tenant) (recorded : Status) : Job Removal := do
  match ← deleteChildren t.name (allChildren t recorded) with
  | .blocked => pure .blocked
  | _ => Hierarchy.deleteRoot settings.root t.name

/-- Delete the collections of a kind, declared or recorded. -/
def deleteCollections (kind : Kind) (t : Tenant) (recorded : Status) : Job Unit :=
  (Collection.namesOf kind [t.spec.resources, recorded.resources]).forM fun name =>
    discard (Hardware.removeCollection kind name)

/-- Delete everything but the namespaces, tell the hooks and release the tenant. -/
def releaseRest (t : Tenant) (recorded : Status) : Job Unit := do
  deleteCollections .partition t recorded
  deleteCollections .group t recorded
  discard (Identity.removeAdmin t.name)
  discard (Encryption.removeDomain recorded.keys)
  Dispatch.dispatch t.spec .delete
  releaseFinalizer t tenantFinalizer

def teardown (settings : Settings) (t : Tenant) : Job Action := do
  let recorded ← markDeleting t
  match ← deleteNamespaces settings t recorded with
  | .blocked => return .requeue 10
  | _ =>
    releaseRest t recorded
    return .await

end Tenancy.Lifecycle

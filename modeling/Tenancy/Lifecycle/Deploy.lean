import Tenancy.Dispatch
import Tenancy.Encryption
import Tenancy.Hierarchy
import Tenancy.Identity
import Tenancy.Lifecycle.Action
import Tenancy.Lifecycle.StatusWrite

/-!
# Deploying a tenant

A deploy pass first writes that it is under way, then moves every system to what the tenant declares in
a fixed order, and at last writes what it applied. An error anywhere leaves the recorded state as it
was, so the next pass works out the same changes again; every step can be repeated.
-/

namespace Tenancy.Lifecycle

structure Settings where
  /-- The namespace that holds the tenants and the anchors of their root namespaces. -/
  root : String := "tenants"
  deriving DecidableEq, Repr

/-- What a pass takes from outside of the systems: an identifier that nothing else has, and the time. -/
structure Fresh where
  uuid : String
  now : String
  deriving DecidableEq, Repr, Inhabited

/-- Make sure of child namespaces and their secrets, one after the other. -/
def ensureChildren (tenant : String) : List String → Job Readiness
  | [] => pure .ready
  | child :: rest => do
    match ← Hierarchy.ensureChild tenant child with
    | .pending => pure .pending
    | .ready =>
      match ← Hierarchy.propagateSecrets tenant child with
      | .pending => pure .pending
      | .ready => ensureChildren tenant rest

def ensureNamespaces (settings : Settings) (t : Tenant) : Job Readiness := do
  match ← Hierarchy.ensureRoot settings.root t.name with
  | .pending => pure .pending
  | .ready => ensureChildren t.name t.desiredChildren

/-- Write that a deployment is under way, and give the tenant its identifier if it has none. -/
def markDeploying (t : Tenant) (fresh : Fresh) : Job Status := do
  if t.recorded.phase.isNone then
    discard (updateStatus t fun s => { s with phase := some .new })
  updateStatus t fun s =>
    { s with phase := some .deploying, uuid := some (s.uuid.getD fresh.uuid) }

/-- Make sure of the encryption domain if the tenant wants one, and take away the request to read its
key anew. -/
def ensureKeys (t : Tenant) (uuid : String) (recorded : KeyRecord) : Job KeyRecord := do
  if t.spec.keys.enabled then
    let rotate := t.spec.requiresKeyUpdate
    let keys ← Encryption.ensureDomain t.name uuid t.spec.keys recorded rotate
    if rotate then clearKeyUpdate t
    return keys
  else return recorded

/-- The recorded child namespaces that are not declared any more. -/
def staleChildren (t : Tenant) : List String :=
  t.recorded.children.filter fun c => !t.desiredChildren.contains c

def deployedStatus (t : Tenant) (keys : KeyRecord) (now : String) (s : Status) : Status :=
  { s with
    phase := some .deployed
    children := t.desiredChildren
    resources := t.spec.resources
    hooks := t.spec.hooks
    keys := keys
    lastDeployed := some now }

/-- Move everything but the namespaces to what the tenant declares, and write what was applied. -/
def applyDeclared (t : Tenant) (fresh : Fresh) (recorded : Status) : Job Unit := do
  Hardware.converge t.name .partition t.spec.resources t.recorded.resources
  Hardware.converge t.name .group t.spec.resources t.recorded.resources
  Identity.ensureAdmin t.name
  let keys ← ensureKeys t (recorded.uuid.getD fresh.uuid) recorded.keys
  (staleChildren t).forM fun c => discard (Hierarchy.deleteChild t.name c)
  Dispatch.dispatch t.spec (if recorded.lastDeployed.isNone then .create else .update)
  discard (updateStatus t (deployedStatus t keys fresh.now))

def deploy (settings : Settings) (fresh : Fresh) (t : Tenant) : Job Action := do
  let recorded ← markDeploying t fresh
  match ← ensureNamespaces settings t with
  | .pending => return .requeue 5
  | .ready =>
    applyDeclared t fresh recorded
    return .await

end Tenancy.Lifecycle

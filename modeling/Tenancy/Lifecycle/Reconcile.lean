import Tenancy.Lifecycle.Teardown

/-!
# Passes

A pass looks at one copy of a tenant and does what it calls for: taking it down, attaching the
finalizer, nothing, or deploying it. A tenant is settled when it is deployed, what is recorded is what
is declared, and its keys are as wanted.
-/

namespace Tenancy.Lifecycle

/-- The keys of a tenant are not as wanted: one is asked for anew, or none is recorded. -/
def keysPending (t : Tenant) : Bool :=
  t.spec.keys.enabled && (t.spec.requiresKeyUpdate || t.recorded.keys.publicKey.isNone)

/-- Nothing is left to apply. -/
def isSettled (t : Tenant) : Bool :=
  t.phase == .deployed && t.isConverged && !keysPending t

/-- A pass over a tenant that is not to be deleted and has the finalizer. -/
def maintain (settings : Settings) (fresh : Fresh) (t : Tenant) : Job Action := do
  if t.spec.requiresKeyUpdate && !t.spec.keys.enabled then clearKeyUpdate t
  if isSettled t then return .await
  deploy settings fresh t

def reconcile (settings : Settings) (fresh : Fresh) (t : Tenant) : Job Action := do
  if t.deletionRequested then
    if t.hasFinalizer tenantFinalizer then teardown settings t else return .await
  else if t.hasFinalizer tenantFinalizer then maintain settings fresh t
  else
    addFinalizer t tenantFinalizer
    return .requeue 1

end Tenancy.Lifecycle

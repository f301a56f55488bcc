import Tenancy.Error

/-!
# What follows a pass

A pass ends by waiting for a change of the tenant or by asking to be called again after some seconds.
A pass that failed is repeated soon if trying again can help, and slowly otherwise.
-/

namespace Tenancy.Lifecycle

/-- When to look at a tenant again. -/
inductive Action where
  /-- When it changes. -/
  | await
  /-- After so many seconds. -/
  | requeue (seconds : Nat)
  deriving DecidableEq, Repr, Inhabited

def errorPolicy (e : Error) : Action := if e.isRetryable then .requeue 5 else .requeue 60

end Tenancy.Lifecycle

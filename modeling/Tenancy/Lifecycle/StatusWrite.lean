import Tenancy.Call
import Tenancy.Retry

/-!
# Writing to a tenant that others write too

A write names the version that it was computed from and is refused when the tenant has another one by
then. So every attempt reads the tenant first and computes the write anew, and a refusal for this
reason is followed by another attempt, five in all.
-/

namespace Tenancy.Lifecycle

/-! ## Calls -/

/-- The latest copy of a tenant. -/
def getTenant (space name : String) : Job (Option Tenant) := Job.call (.store (.get space name))

/-- Write a status over the one of a copy. -/
def replaceStatus (t : Tenant) (s : Status) : Job Unit := Job.call (.store (.replaceStatus t s))

def addFinalizer (t : Tenant) (finalizer : String) : Job Unit :=
  Job.call (.store (.addFinalizer t finalizer))

def removeFinalizer (t : Tenant) (finalizer : String) : Job Unit :=
  Job.call (.store (.removeFinalizer t finalizer))

def clearKeyUpdate (t : Tenant) : Job Unit := Job.call (.store (.clearKeyUpdate t))

/-! ## Guarded writes -/

/-- The attempts that a write gets. -/
def writeAttempts : Backoff := .ofMaxAttempts 5

/-- Repeat a job while it is refused because someone else wrote first. -/
def untilUncontested {α : Type} (t : Job α) : Job α :=
  ExceptT.mk (Retry.perform writeAttempts Error.isConflict t.run)

/-- The error for a tenant that has gone. -/
def gone (space name : String) : Error :=
  .internal "update_status" ("tenant " ++ space ++ "/" ++ name ++ " no longer exists" : String)

/-- Change the status of the latest copy of a tenant once. -/
def updateOnce (space name : String) (change : Status → Status) : Job Status := do
  match ← getTenant space name with
  | none => throw (gone space name)
  | some latest =>
    let s := change latest.recorded
    replaceStatus latest s
    return s

/-- Change the status of a tenant; the result is the status that was written. -/
def updateStatus (t : Tenant) (change : Status → Status) : Job Status :=
  untilUncontested (updateOnce t.metadata.spaceName t.metadata.anyName change)

/-- Detach a finalizer from the latest copy of a tenant once, if it is there. -/
def releaseOnce (space name finalizer : String) : Job Unit := do
  match ← getTenant space name with
  | none => return ()
  | some latest => if latest.hasFinalizer finalizer then removeFinalizer latest finalizer

def releaseFinalizer (t : Tenant) (finalizer : String) : Job Unit :=
  untilUncontested (releaseOnce t.metadata.spaceName t.metadata.anyName finalizer)

end Tenancy.Lifecycle

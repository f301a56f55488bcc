import Tenancy.Anchor
import Tenancy.Call
import Tenancy.Outcome

/-!
# The namespaces of a tenant

A tenant has a root namespace and child namespaces below it, each asked for by an anchor in its parent.
The controller of the hierarchy makes a namespace some time after its anchor was made; a parent that is
not there yet is therefore no error but a reason to come back. A namespace that still has children
cannot be deleted yet. Some child namespaces are given copies of secrets.
-/

namespace Tenancy.Hierarchy

/-! ## Calls -/

def anchorExists (parent name : String) : Job Bool := Job.call (.hierarchy (.anchorExists parent name))

def createAnchor (parent name : String) : Job Unit := Job.call (.hierarchy (.createAnchor parent name))

def deleteAnchor (parent name : String) : Job Unit := Job.call (.hierarchy (.deleteAnchor parent name))

def getSecret (space name : String) : Job (Option Secret) :=
  Job.call (.hierarchy (.getSecret space name))

def createSecret (space : String) (secret : Secret) : Job Unit :=
  Job.call (.hierarchy (.createSecret space secret))

/-! ## Anchors -/

/-- Whether an attempt to make something in a namespace did: it did if the thing is there by now, and
has to wait if the namespace is not. -/
def madeIn : Except Error Unit → Except Error Readiness
  | .ok _ => .ok .ready
  | .error e =>
    if e.isConflict then .ok .ready else if e.isNotFound then .ok .pending else .error e

def ensureAnchor (parent name : String) : Job Readiness := do
  if ← anchorExists parent name then return .ready
  liftExcept (madeIn (← (createAnchor parent name).outcome))

/-- What an attempt to delete an anchor comes to. -/
def deletedFrom : Except Error Unit → Except Error Removal
  | .ok _ => .ok .removed
  | .error e =>
    if e.isNotFound then .ok .absent else if e.status = some 403 then .ok .blocked else .error e

def removeAnchor (parent name : String) : Job Removal := do
  liftExcept (deletedFrom (← (deleteAnchor parent name).outcome))

def ensureRoot (root tenant : String) : Job Readiness := ensureAnchor root tenant

def ensureChild (tenant qualified : String) : Job Readiness := ensureAnchor tenant qualified

def deleteChild (tenant qualified : String) : Job Removal := removeAnchor tenant qualified

def deleteRoot (root tenant : String) : Job Removal := removeAnchor root tenant

/-! ## Secrets -/

/-- A secret that is copied into a child namespace. -/
structure Copied where
  child : String
  secret : String
  source : String
  deriving DecidableEq, Repr

def copied : List Copied := [⟨"slurm", "wlm-s3-credentials", "default"⟩]

/-- Copy one secret unless a copy is there. A source that does not exist is passed over. -/
def copySecret (qualified : String) (c : Copied) : Job Readiness := do
  if (← getSecret qualified c.secret).isSome then return .ready
  match ← getSecret c.source c.secret with
  | none => return .ready
  | some source =>
    liftExcept (madeIn (← (createSecret qualified (source.copyTo c.secret qualified)).outcome))

/-- Copy secrets one after the other, as long as the namespace is there. -/
def copySecrets (qualified : String) : List Copied → Job Readiness
  | [] => pure .ready
  | c :: rest => do
    match ← copySecret qualified c with
    | .pending => pure .pending
    | .ready => copySecrets qualified rest

/-- Copy the secrets that a child namespace needs. -/
def propagateSecrets (tenant qualified : String) : Job Readiness :=
  match Tenant.unqualify? tenant qualified with
  | none => pure .ready
  | some child => copySecrets qualified (copied.filter fun c => c.child = child)

end Tenancy.Hierarchy

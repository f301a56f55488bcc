import Tenancy.Hardware
import Tenancy.Json.Printer

/-!
# The encryption domain of a tenant

A domain is three things in the engine that keeps keys: an engine of its own mounted under the domain's
name, a policy that allows its use, and a role that gives the policy to the tenant's namespace. They
only make sense together, so when making one of them fails the ones made before are taken away again.
The domain's name is assigned once. The key is the recorded one, unless there is none or a new one is
asked for; an existing key is never written.
-/

namespace Tenancy.Encryption

open Hardware (agreeing)

/-! ## Calls -/

def read (path : String) : Job (Option Json) := Job.call (.vault (.read path))

def write (path : String) (body : Json) : Job Unit := Job.call (.vault (.write path body))

def delete (path : String) : Job Unit := Job.call (.vault (.delete path))

/-! ## Paths -/

def domainName (uuid : String) : String := "cray-tenant-" ++ uuid

def mountPath (domain : String) : String := "sys/mounts/" ++ domain

def policyName (domain : String) : String := "allow_" ++ domain

def policyPath (domain : String) : String := "sys/policy/" ++ policyName domain

def rolePath (domain : String) : String := "auth/kubernetes/role/" ++ domain

def keyPath (domain key : String) : String := domain ++ "/keys/" ++ key

/-! ## Making a domain -/

/-- A path and what is written there. -/
structure Step where
  path : String
  body : Json

def policyText (domain : String) : String :=
  "path \"" ++ domain ++
    "/*\" \x7b\n  capabilities = [\"read\", \"update\", \"list\"]\n\x7d"

/-- The three writes that make a domain. -/
def steps (tenant domain : String) : List Step :=
  [⟨mountPath domain,
      Json.ofMembers [("type", .string "transit"), ("description", .string tenant)]⟩,
    ⟨policyPath domain, Json.ofMembers [("policy", .string (policyText domain))]⟩,
    ⟨rolePath domain,
      Json.ofMembers [("bound_service_account_names", .string "default"),
        ("bound_service_account_namespaces", .string tenant),
        ("policies", .string (policyName domain))]⟩]

/-- Take away what was made, the last first; a failure to do so is passed over. -/
def rollBack : (made : List String) → Job Unit
  | [] => pure ()
  | path :: rest => do
    discard (delete path).outcome
    rollBack rest

/-- Make the steps one after the other, with those already made, the last first. -/
def provisionFrom (made : List String) : List Step → Job Unit
  | [] => pure ()
  | s :: rest => do
    match ← (write s.path s.body).outcome with
    | .ok _ => provisionFrom (s.path :: made) rest
    | .error e =>
      rollBack made
      throw (e.within ("provisioning " ++ s.path))

/-- Make a domain, or leave nothing of it. -/
def provision (tenant domain : String) : Job Unit := provisionFrom [] (steps tenant domain)

/-! ## Keys -/

/-- The public part of what is read at the path of a key. -/
def publicKeyOf (data : Json) : String := ((data.member? "keys").getD .null).compact

/-- The recorded value, unless there is none or the desired one is to be adopted. -/
def keep (adopt : Bool) (recorded : Option String) (desired : String) : String :=
  if adopt then desired else recorded.getD desired

/-- Read a key, making it if it is not there. -/
def ensureKey (path keyType : String) : Job Json := do
  match ← read path with
  | some data => return data
  | none =>
    (write path (Json.ofMembers [("type", .string keyType)])).within ("creating key " ++ path)
    match ← read path with
    | some data => return data
    | none => throw (.internal "encryption" ("key " ++ path ++ " missing right after creation" : String))

/-- Make sure of the domain and key of a tenant, and say what they are. -/
def ensureDomain (tenant uuid : String) (desired : KeySettings) (recorded : KeyRecord)
    (rotate : Bool) : Job KeyRecord := do
  let domain := recorded.domain.getD (domainName uuid)
  if (← read (mountPath domain)).isNone then provision tenant domain
  let adopt := rotate || recorded.keyName.isNone
  let keyName := keep adopt recorded.keyName desired.keyName
  let keyType := keep adopt recorded.keyType desired.keyType
  let data ← ensureKey (keyPath domain keyName) keyType
  return { domain := some domain, keyName := some keyName, keyType := some keyType,
           publicKey := some (publicKeyOf data) }

/-! ## Deleting a domain -/

/-- Delete a path that may be gone already. -/
def removePath (path : String) : Job Unit := do
  liftExcept (agreeing Error.isNotFound ("deleting " ++ path) (← (delete path).outcome))

/-- Delete the recorded domain. -/
def removeDomain (recorded : KeyRecord) : Job Removal :=
  match recorded.domain with
  | none => pure .absent
  | some domain => do
    let found := (← read (mountPath domain)).isSome
    [mountPath domain, policyPath domain, rolePath domain].forM removePath
    return if found then .removed else .absent

end Tenancy.Encryption

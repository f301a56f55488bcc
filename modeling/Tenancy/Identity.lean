import Tenancy.Hardware

/-!
# The administrators' group of a tenant

The group is made once and deleted when the tenant is. A group to which the provider has given no
identifier cannot be deleted and counts as absent.
-/

namespace Tenancy.Identity

open Hardware (agreeing deleted)

def findGroup (name : String) : Job (Option IdentityGroup) := Job.call (.identity (.find name))

def createGroup (g : IdentityGroup) : Job Unit := Job.call (.identity (.create g))

def deleteGroup (id : String) : Job Unit := Job.call (.identity (.delete id))

/-- Make the administrators' group of a tenant unless it exists. -/
def ensureAdmin (tenant : String) : Job Unit := do
  let name := IdentityGroup.adminName tenant
  if (← findGroup name).isSome then return ()
  liftExcept (agreeing Error.isConflict ("creating identity group " ++ name)
    (← (createGroup (IdentityGroup.admin tenant)).outcome))

def removeAdmin (tenant : String) : Job Removal := do
  let name := IdentityGroup.adminName tenant
  match (← findGroup name).bind IdentityGroup.id with
  | none => return .absent
  | some id =>
    liftExcept (deleted ("deleting identity group " ++ name) (← (deleteGroup id).outcome))

end Tenancy.Identity

import Tenancy.Hardware

/-!
# Admission

Before a declaration is stored it is checked against the hardware service, which is only read. Members
of compute and application resources have to be nodes with that role, and members of an exclusive
resource may be in no other exclusive group. All problems found are reported together; a service that
cannot be read refuses the declaration.
-/

namespace Tenancy.Admission

/-- The role that the members of a class have to have, if any. -/
def requiredRole (label : String) : Option String :=
  let folded := String.ofList (label.toList.map Char.toLower)
  if folded = "compute" then some "Compute"
  else if folded = "application" then some "Application"
  else none

/-- The error for a declaration that does not do. -/
def refusal (tenant : String) (problems : List String) : Error :=
  .validation tenant (String.intercalate "; " problems : String)

/-- The error for a declaration that cannot be checked. -/
def unverified (tenant : String) (e : Error) : Error :=
  .validation tenant
    ⟨"unable to verify hardware state: " ++ e.message.text, e.message.foreign⟩

/-- Accept a declaration without problems. -/
def settle (tenant : String) (problems : List String) : Job Unit :=
  if problems.isEmpty then pure () else throw (refusal tenant problems)

/-! ## Eligible members -/

/-- The members that are not in the inventory. -/
def ineligible (inventory : List String) (r : Resource) : List String :=
  r.members.filter fun m => !inventory.contains m

def eligibilityProblem (inventory : List String) (r : Resource) : Option String :=
  let missing := ineligible inventory r
  if missing.isEmpty then none
  else some ("not " ++ r.label ++ " nodes: " ++ String.intercalate ", " missing)

/-- Check that the members of a resource have the role of its class. -/
def checkEligible (tenant : String) (r : Resource) : Job (Option String) :=
  match requiredRole r.label with
  | none => pure none
  | some role => do
    let inventory ← (Hardware.listComponents "Node" role).mapError (unverified tenant)
    return eligibilityProblem inventory r

def eligibilityProblems (tenant : String) : List Resource → Job (List String)
  | [] => pure []
  | r :: rest => do
    let problem ← checkEligible tenant r
    return problem.toList ++ (← eligibilityProblems tenant rest)

/-! ## Exclusive groups -/

/-- The exclusive resources with the groups they target. -/
def exclusiveTargets (rs : List Resource) : List (String × Resource) :=
  (rs.filter Resource.exclusive).filterMap fun r => (Kind.group.target? r).map fun g => (g, r)

/-- The members of a resource with the other exclusive groups they are in. -/
def conflicts (groups : List Collection) (target : String) (r : Resource) :
    List (String × Collection) :=
  r.members.flatMap fun m =>
    (groups.filter fun g => g.name ≠ target && g.isTenantExclusive && g.members.contains m).map
      fun g => (m, g)

def exclusivityProblem (groups : List Collection) (target : String) (r : Resource) :
    Option String :=
  let found := conflicts groups target r
  if found.isEmpty then none
  else some ("members already in another exclusive group: " ++
    String.intercalate ", " (found.map fun p => p.1 ++ " (in " ++ p.2.name ++ ")"))

/-- The problems with the groups of all exclusive resources. Groups are listed only if one of the
resources targets any. -/
def exclusivityProblems (tenant : String) (rs : List Resource) : Job (List String) :=
  match exclusiveTargets rs with
  | [] => pure []
  | targets => do
    let groups ← Hardware.listGroups.mapError (unverified tenant)
    return targets.filterMap fun t => exclusivityProblem groups t.1 t.2

/-! ## Declarations -/

/-- The checks that every declaration has to pass. -/
def hardwareProblems (tenant : String) (rs : List Resource) : Job (List String) := do
  let eligible ← eligibilityProblems tenant rs
  let exclusive ← exclusivityProblems tenant rs
  return eligible ++ exclusive

def validateCreate (t : Tenant) : Job Unit := do
  if Text.trim t.name = "" then
    throw (.validation Error.unknownTenant "tenantname must not be empty")
  settle t.name (← hardwareProblems t.name t.spec.resources)

def nameProblem (old new : Tenant) : Option String :=
  if old.name = new.name then none
  else some ("tenantname is immutable (was " ++ old.name ++ ", now " ++ new.name ++ ")")

/-- The problem of a resource whose class was applied with another exclusivity. -/
def immutabilityProblem (applied : List Resource) (r : Resource) : Option String :=
  match applied.find? fun a => a.label = r.label with
  | none => none
  | some a =>
    if a.exclusive = r.exclusive then none
    else some ("enforceexclusivehsmgroups is immutable for " ++ r.label ++ " resources")

/-- The problems of a change that can be seen without asking anyone. -/
def changeProblems (old new : Tenant) : List String :=
  (nameProblem old new).toList ++
    new.spec.resources.filterMap (immutabilityProblem old.recorded.resources)

def validateUpdate (old new : Tenant) : Job Unit := do
  settle new.name (changeProblems old new ++ (← hardwareProblems new.name new.spec.resources))

end Tenancy.Admission

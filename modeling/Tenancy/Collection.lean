import Tenancy.Tenant.Basic

/-!
# Hardware collections

The hardware service groups nodes in two kinds of collections, partitions and groups. A resource of a
tenant names the partition and the group that its members are to be in, and several resources may name
the same one, so the members of a collection are the union over the resources that target it. `plan`
compares what is declared with what was last applied, collection by collection; `retired` names the
collections that nothing declares any more.
-/

namespace Tenancy

inductive Kind where
  | partition
  | group
  deriving DecidableEq, Repr, Inhabited

namespace Kind

def name : Kind → String
  | partition => "partition"
  | group => "group"

/-- The collection of a kind that a resource names. -/
def declared : Kind → Resource → Option String
  | partition, r => r.partition
  | group, r => r.group

/-- The collection that a resource targets: the name without blanks at its ends, unless nothing is
left of it. -/
def target? (k : Kind) (r : Resource) : Option String :=
  ((k.declared r).map Text.trim).filter fun t => t ≠ ""

end Kind

/-- A partition or group. -/
structure Collection where
  name : String
  description : String := ""
  tags : List String := []
  members : List String := []
  /-- The marker of a group whose members may be in no other group with a marker. -/
  marker : Option String := none
  deriving DecidableEq, Repr, Inhabited

namespace Collection

/-- The marker that the operator gives to exclusive groups. -/
def exclusiveMarker : String := "tapms-exclusive-group-label"

/-- The group was made exclusive for a tenant. -/
def isTenantExclusive (c : Collection) : Bool := c.marker == some exclusiveMarker

/-! ## Planning -/

/-- What one collection should have and what it was last given. -/
structure Plan where
  name : String
  desired : Names
  observed : Names
  exclusive : Bool
  deriving DecidableEq, Repr

/-- The names of the collections of a kind that resources target. -/
def targets (k : Kind) (rs : List Resource) : Names := Names.ofList (rs.filterMap k.target?)

def targeting (k : Kind) (name : String) (rs : List Resource) : List Resource :=
  rs.filter fun r => k.target? r = some name

/-- The members that resources give to a collection. -/
def membersFor (k : Kind) (name : String) (rs : List Resource) : Names :=
  Names.ofList ((targeting k name rs).flatMap Resource.members)

/-- Some resource that targets the collection wants it exclusive. -/
def exclusiveFor (k : Kind) (name : String) (rs : List Resource) : Bool :=
  (targeting k name rs).any Resource.exclusive

def planFor (k : Kind) (desired observed : List Resource) (name : String) : Plan where
  name := name
  desired := membersFor k name desired
  observed := membersFor k name observed
  exclusive := exclusiveFor k name desired

/-- The plans for the declared collections, in ascending order of their names. -/
def plans (k : Kind) (desired observed : List Resource) : List Plan :=
  (targets k desired).map (planFor k desired observed)

/-- The collections that were applied and are no longer declared. -/
def retired (k : Kind) (desired observed : List Resource) : Names :=
  (targets k observed).without (targets k desired)

/-- The names of all collections that any of the lists mentions. -/
def namesOf (k : Kind) (lists : List (List Resource)) : Names := targets k lists.flatten

theorem mem_targets {k : Kind} {rs : List Resource} {name : String} :
    name ∈ targets k rs ↔ ∃ r ∈ rs, k.target? r = some name := by
  simp [targets, Names.mem_ofList]

theorem mem_namesOf {k : Kind} {a b : List Resource} {n : String} :
    n ∈ namesOf k [a, b] ↔ n ∈ targets k a ∨ n ∈ targets k b := by
  simp only [namesOf, mem_targets, List.flatten_cons, List.flatten_nil, List.append_nil,
    List.mem_append, or_and_right, exists_or]

theorem mem_membersFor {k : Kind} {rs : List Resource} {name m : String} :
    m ∈ membersFor k name rs ↔ ∃ r ∈ rs, k.target? r = some name ∧ m ∈ r.members := by
  simp [membersFor, targeting, Names.mem_ofList, and_assoc]

/-- The collection to make for a plan: tagged with the tenant, and marked if it is to be exclusive. -/
def forPlan (tenant : String) (k : Kind) (p : Plan) : Collection where
  name := p.name
  description := k.name ++ " for tenant " ++ tenant
  tags := [tenant]
  marker := if k = .group && p.exclusive then some exclusiveMarker else none

end Collection

end Tenancy

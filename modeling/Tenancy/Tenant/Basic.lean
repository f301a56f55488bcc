import Tenancy.Hook
import Tenancy.Membership

/-!
# Tenants

A tenant is a slice of a cluster. Its spec declares what belongs to it: child namespaces, hardware,
keys and hooks. Its status records what the last complete pass applied. `Tenant.isConverged` compares
the two: hardware and namespaces as sets, hooks in order.

A child namespace is named after its tenant, and `unqualify?_qualify` says that the tenant gets the child's
own name back. Both names may have dashes, so the same namespace can be a child of another tenant as well.
-/

namespace Tenancy

/-- One class of hardware of a tenant: its members and the collections they are to be in. -/
structure Resource where
  /-- The name of the class, such as `compute`. -/
  label : String
  members : List String := []
  partition : Option String := none
  group : Option String := none
  /-- The members may be in no other exclusive group. -/
  exclusive : Bool := false
  deriving DecidableEq, Repr, Inhabited

namespace Resource

/-- The resources are equal up to the order and repetition of their members. -/
def sameAs (r s : Resource) : Bool :=
  r.label == s.label && r.partition == s.partition && r.group == s.group &&
    r.exclusive == s.exclusive && sameMembers r.members s.members

end Resource

/-- The keys that a tenant wants. -/
structure KeySettings where
  enabled : Bool := false
  keyName : String := "key1"
  keyType : String := "rsa-3072"
  deriving DecidableEq, Repr, Inhabited

/-- The keys that a tenant has. -/
structure KeyRecord where
  /-- The encryption domain; it is assigned once. -/
  domain : Option String := none
  keyName : Option String := none
  keyType : Option String := none
  publicKey : Option String := none
  deriving DecidableEq, Repr, Inhabited

inductive Phase where
  | new
  | deploying
  | deployed
  | deleting
  deriving DecidableEq, Repr, Inhabited

namespace Phase

def name : Phase → String
  | new => "New"
  | deploying => "Deploying"
  | deployed => "Deployed"
  | deleting => "Deleting"

def ofName? : String → Option Phase
  | "New" => some new
  | "Deploying" => some deploying
  | "Deployed" => some deployed
  | "Deleting" => some deleting
  | _ => none

theorem ofName?_eq_some_iff {s : String} {p : Phase} : ofName? s = some p ↔ s = p.name := by
  constructor
  · intro h
    unfold ofName? at h
    split at h <;> cases h <;> rfl
  · rintro rfl
    cases p <;> rfl

end Phase

/-- What a tenant declares. -/
structure Spec where
  name : String
  children : List String := []
  resources : List Resource := []
  keys : KeySettings := {}
  hooks : List Hook := []
  /-- The tenant's key is to be read anew; the operator takes the request away. -/
  requiresKeyUpdate : Bool := false
  deriving DecidableEq, Repr, Inhabited

namespace Spec

/-- The specs are equal up to the request for a key update, which the operator takes away itself. -/
def sameDeclaration (s t : Spec) : Bool :=
  s == { t with requiresKeyUpdate := s.requiresKeyUpdate }

end Spec

/-- What was applied. -/
structure Status where
  phase : Option Phase := none
  /-- The identifier; it is assigned once. -/
  uuid : Option String := none
  /-- Child namespaces by their qualified names. -/
  children : List String := []
  resources : List Resource := []
  hooks : List Hook := []
  keys : KeyRecord := {}
  lastDeployed : Option String := none
  deriving DecidableEq, Repr, Inhabited

structure Tenant where
  metadata : Metadata := {}
  spec : Spec
  status : Option Status := none
  deriving DecidableEq, Repr, Inhabited

namespace Tenant

/-! ## The names of child namespaces -/

def qualify (tenant child : String) : String := tenant ++ "-" ++ child

/-- The child's own name, if the qualified name belongs to the tenant. -/
def unqualify? (tenant qualified : String) : Option String :=
  (Text.dropStart? (tenant ++ "-").toList qualified.toList).map String.ofList

theorem unqualify?_qualify (tenant child : String) :
    unqualify? tenant (qualify tenant child) = some child := by
  have h : (qualify tenant child).toList = (tenant ++ "-").toList ++ child.toList :=
    String.toList_append
  rw [unqualify?, h, Text.dropStart?_append]
  simp

/-! ## What is declared and what is recorded -/

/-- The name under which every system knows the tenant. -/
def name (t : Tenant) : String := t.spec.name

/-- The recorded status; the empty one where there is none. -/
def recorded (t : Tenant) : Status := t.status.getD {}

/-- The recorded phase; a tenant without one is new. -/
def phase (t : Tenant) : Phase := t.recorded.phase.getD .new

def uuid (t : Tenant) : Option String := t.recorded.uuid

def deletionRequested (t : Tenant) : Bool := t.metadata.deletionTimestamp.isSome

def hasFinalizer (t : Tenant) (finalizer : String) : Bool :=
  t.metadata.finalizerList.contains finalizer

/-- The qualified names of the child namespaces the tenant declares. -/
def desiredChildren (t : Tenant) : List String :=
  t.spec.children.map fun c => qualify t.name (Text.trim c)

/-- Every declared resource is recorded, in as many entries. -/
def resourcesAgree (desired observed : List Resource) : Bool :=
  desired.length == observed.length && desired.all fun d => observed.any fun o => d.sameAs o

/-- What is recorded is what is declared. -/
def isConverged (t : Tenant) : Bool :=
  match t.status with
  | none => false
  | some s =>
    resourcesAgree t.spec.resources s.resources && sameMembers t.desiredChildren s.children &&
      t.spec.hooks == s.hooks

end Tenant

end Tenancy

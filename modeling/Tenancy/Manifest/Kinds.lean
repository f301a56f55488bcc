import Tenancy.Manifest.Definition
import Tenancy.Tenant.Codec

/-!
# The kinds of objects of the operator

Tenants, hooks registered for all tenants, and the anchors by which namespaces are put into their
hierarchy. The defaults are those that a decoder takes for a field that is not given.
-/

namespace Tenancy.Definition

open Schema.Field (needed optional withDefault)

/-- A list that is empty by default. -/
def listField (name : String) (item : Schema) (words : String) : Schema.Field :=
  withDefault name (.list item) (.array []) words

/-- A truth value that is false by default. -/
def switchField (name words : String) : Schema.Field :=
  withDefault name .boolean (.bool false) words

/-! ## Hooks -/

def eventSchema : Schema :=
  (Schema.choice ([.create, .update, .delete].map Event.name)).about
    "Tenant lifecycle event a hook can subscribe to"

def secretRefSchema : Schema :=
  .object [
    needed "secretname" .text "Secret name",
    needed "secretnamespace" .text "Secret namespace"]

def hookFields : List Schema.Field :=
  [needed "name" .text "Hook name, used in logs and errors",
    needed "url" .text "Target URL the payload is POSTed to",
    listField "eventtypes" eventSchema "Events this hook is called for",
    switchField "blockingcall" "Failure aborts the transition",
    optional "hookcredentials" secretRefSchema "Optional credentials sent with the call"]

def hookSchema : Schema :=
  (Schema.object hookFields).about "A registered callback invoked on tenant lifecycle events"

def globalHookWords : String :=
  "GlobalTenantHook registers a hook that applies to every tenant.\n\n" ++
  "Example: \x60\x60\x60yaml apiVersion: tapms.hpe.com/v1alpha1 kind: GlobalTenantHook " ++
  "metadata: name: slurm-sync spec: name: slurm-sync " ++
  "url: http://slurm-operator.services/tenant-hook eventtypes: [CREATE, UPDATE, DELETE] " ++
  "blockingcall: true \x60\x60\x60"

def globalHook : Definition where
  group := "tapms.hpe.com"
  version := "v1alpha1"
  kind := "GlobalTenantHook"
  singular := "globaltenanthook"
  plural := "globaltenanthooks"
  spaced := false
  columns := [⟨"URL", "string", ".spec.url"⟩, ⟨"Blocking", "boolean", ".spec.blockingcall"⟩]
  spec := (Schema.object hookFields).about globalHookWords

/-! ## Anchors -/

def anchor : Definition where
  group := "hnc.x-k8s.io"
  version := "v1alpha2"
  kind := "SubnamespaceAnchor"
  singular := "subnamespaceanchor"
  plural := "subnamespaceanchors"
  spec := (Schema.object []).about "Anchor marking a child namespace under its parent"
  status := some <| (Schema.object [
    optional "status" .text "\"Ok\", \"Missing\", \"Conflict\" or \"Forbidden\""]).about
      "Anchor state reported by the namespace-hierarchy controller"

/-! ## Tenants -/

def resourceSchema : Schema :=
  (Schema.object [
    needed "type" .text "Class label",
    listField "xnames" .text "Member node identifiers",
    optional "hsmpartitionname" .text "Hardware partition the members are placed in",
    optional "hsmgrouplabel" .text "Hardware group the members are placed in",
    switchField "enforceexclusivehsmgroups"
      "Members may not belong to any other exclusive group; immutable once the group exists"]).about
    "One class of hardware membership (e.g. \"compute\", \"application\")"

def keySettingsSchema : Schema :=
  let usual : KeySettings := {}
  .object [
    switchField "enablekms" "Provision an encryption domain for the tenant",
    withDefault "keyname" .text (.string usual.keyName) "Name of the tenant key",
    withDefault "keytype" .text (.string usual.keyType) "Key algorithm"]

def keyRecordSchema : Schema :=
  .object [
    optional "transitname" .text "Encryption domain name; assigned once and never regenerated",
    optional "keyname" .text "Key name applied",
    optional "keytype" .text "Key algorithm applied",
    optional "publickey" .text
      "Exported public key material, mirrored from the key-management system"]

def tenantWords : String :=
  "Tenant declares the desired state of a cluster tenant.\n\n" ++
  "Example: \x60\x60\x60yaml apiVersion: tapms.hpe.com/v1alpha3 kind: Tenant " ++
  "metadata: name: vcluster-blue namespace: tenants spec: tenantname: vcluster-blue " ++
  "childnamespaces: [slurm, user] tenantresources: - type: compute " ++
  "xnames: [x1000c0s0b0n0, x1000c0s0b1n0] hsmpartitionname: blue hsmgrouplabel: blue " ++
  "enforceexclusivehsmgroups: true tenantkms: enablekms: true \x60\x60\x60"

def tenantSpecSchema : Schema :=
  (Schema.object [
    needed "tenantname" .text "Stable tenant name, the primary key in every backing system",
    listField "childnamespaces" .text
      "Child namespaces, relative to the tenant's root namespace",
    listField "tenantresources" resourceSchema "Hardware membership, at most one entry per class",
    withDefault "tenantkms" keySettingsSchema ({} : KeySettings).toJson "Key-management settings",
    listField "tenanthooks" hookSchema "Tenant-local lifecycle hooks, called in declaration order",
    switchField "requiresvaultkeyupdate"
      "Request a re-read of the tenant key; cleared by the operator once applied"]).about tenantWords

def tenantStatusSchema : Schema :=
  (Schema.object [
    optional "state" (.choice ([.new, .deploying, .deployed, .deleting].map Phase.name))
      "Lifecycle state",
    optional "uuid" .text "Generated identifier, assigned once",
    listField "childnamespaces" .text "Fully-qualified child namespaces last applied",
    listField "tenantresources" resourceSchema "Hardware membership last applied",
    listField "tenanthooks" hookSchema "Hooks in effect at the last successful pass",
    withDefault "tenantkms" keyRecordSchema ({} : KeyRecord).toJson "Key-management state",
    optional "lastdeployed" .text "RFC 3339 time of the last successful pass"]).about
    "Observed state of a Tenant"

def tenant : Definition where
  group := "tapms.hpe.com"
  version := "v1alpha3"
  kind := "Tenant"
  singular := "tenant"
  plural := "tenants"
  shortNames := ["tenant"]
  columns := [⟨"State", "string", ".status.state"⟩, ⟨"UUID", "string", ".status.uuid"⟩,
    ⟨"Age", "date", ".metadata.creationTimestamp"⟩]
  spec := tenantSpecSchema
  status := some tenantStatusSchema

end Tenancy.Definition

import Tenancy.Anchor
import Tenancy.Call
import Tenancy.Cluster.Request

/-!
# Tenants, namespaces and secrets in the cluster

Changes of a tenant are merge patches. Those of the status and of the finalizers name the version that
they were computed from, so that the server refuses them when the tenant has another one by then.
-/

namespace Tenancy.Cluster

/-! ## Patches -/

/-- The version that a change was computed from. -/
def versionOf (t : Tenant) : Json := Json.ofText? t.metadata.resourceVersion

def statusPatch (t : Tenant) (s : Status) : Json :=
  Json.ofMembers [("metadata", Json.ofMembers [("resourceVersion", versionOf t)]),
    ("status", s.toJson)]

def finalizersPatch (t : Tenant) (finalizers : List String) : Json :=
  Json.ofMembers [("metadata", Json.ofMembers [("resourceVersion", versionOf t),
    ("finalizers", Json.strings finalizers)])]

/-- The patch that takes away the request for a key update. -/
def clearPatch : Json :=
  Json.ofMembers [("spec", Json.ofMembers [("requiresvaultkeyupdate", .bool false)])]

def patchTenant (t : Tenant) (part : String) (changes : Json) : ServerJob Unit :=
  patch Tenant.decode (Resource.tenants.inSpace t.metadata.spaceName) t.metadata.anyName part changes

/-! ## Calls -/

def store : (c : StoreCall) → ServerJob c.Reply
  | .get space name => get? Tenant.decode (Resource.tenants.inSpace space) name
  | .replaceStatus t s => patchTenant t "/status" (statusPatch t s)
  | .addFinalizer t f =>
    if t.hasFinalizer f then pure ()
    else patchTenant t "" (finalizersPatch t (t.metadata.finalizerList ++ [f]))
  | .removeFinalizer t f =>
    patchTenant t "" (finalizersPatch t (t.metadata.finalizerList.filter (· ≠ f)))
  | .clearKeyUpdate t => patchTenant t "" clearPatch

def hierarchy : (c : HierarchyCall) → ServerJob c.Reply
  | .anchorExists p n => do
    return (← get? Anchor.decode (Resource.anchors.inSpace p) n).isSome
  | .createAnchor p n =>
    create Anchor.decode (Resource.anchors.inSpace p) (Anchor.wanted p n).toJson
  | .deleteAnchor p n => delete Anchor.decode (Resource.anchors.inSpace p) n
  | .getSecret space n => get? Secret.decode (Resource.secrets.inSpace space) n
  | .createSecret space s => create Secret.decode (Resource.secrets.inSpace space) s.toJson

/-! ## Hooks and their secrets -/

/-- The texts in a secret: its bytes read as text, with U+FFFD where they are none, and its texts. -/
def secretTexts (s : Secret) : Dict String :=
  Dict.union ((s.data.getD []).mapValues Text.utf8Lossy) (s.stringData.getD [])

def readSecret (space name : String) : ServerJob (Option (Dict String)) := do
  return (← get? Secret.decode (Resource.secrets.inSpace space) name).map secretTexts

/-- The metadata of a list, of which nothing is kept. -/
def listMetadata : Record Unit :=
  Record.const (fun (_ : Option String) (_ : Option Int) (_ _ : Option String) => ())
    |>.also (.optional "continue" Reading.text)
    |>.also (.optional "remainingItemCount"
      (Reading.integer (-9223372036854775808) 9223372036854775807))
    |>.also (.optional "resourceVersion" Reading.text)
    |>.also (.optional "selfLink" Reading.text)

def listRecord {α : Type} (decode : Reading.Decoder α) : Record (List α) :=
  Record.const (fun (_ : Unit) items => items)
    |>.also (.default "metadata" listMetadata.decodeOpen ())
    |>.also (.required "items" (Reading.nullIs [] (Reading.list decode)))

/-- Decode a list of objects. Its version and kind may be anything, but they are read. -/
def listOf {α : Type} (decode : Reading.Decoder α) : Reading.Decoder (List α) :=
  (listRecord decode).decodeWhole 0

def listGlobalHooks : ServerJob (List Hook) := do
  let body ← send { method := "GET", uri := Resource.globalHooks.everywhere }
  let list ← liftExcept (objectIn (listOf GlobalHook.decode) body)
  return list.map GlobalHook.hook

end Tenancy.Cluster

import Tenancy.Call

/-!
# A world in memory

All systems of the operator as one value, each as simple as it can be while it keeps its word: a call
that succeeds had its effect, 404 means that the thing was not there, 409 that it was there or that
someone else wrote first, and 403 that a namespace still has children. Passes can be rehearsed on such
a world.
-/

namespace Tenancy.Rehearsal

/-- The state of all systems. -/
structure World where
  tenant : Option Tenant := none
  /-- Anchors as `parent/name`. -/
  anchors : Names := []
  /-- Namespaces that have not been made yet. -/
  hidden : List String := []
  /-- Secrets by `namespace/name`. -/
  secrets : Dict Secret := []
  /-- Collections by kind and name with a blank between them. -/
  collections : Dict Collection := []
  /-- The components by `type/role`. -/
  components : Dict (List String) := []
  identity : List IdentityGroup := []
  vault : Dict Json := []
  globals : List Hook := []
  /-- The texts in the secrets for hooks, by `namespace/name`. -/
  hookSecrets : Dict (Dict String) := []
  /-- The status that each address answers with; 200 for others. -/
  hookStatus : Dict Nat := []
  deriving Inhabited

namespace World

/-- A world together with the reply to a call. -/
abbrev Answer (α : Type) := Except Error α × World

/-- A call that changes nothing. -/
def reply {α : Type} (w : World) (a : α) : Answer α := (.ok a, w)

def effect (w : World) : Answer Unit := (.ok (), w)

def refuse {α : Type} (w : World) (system : String) (status : Nat) (message : String) : Answer α :=
  (.error (.rejected system status message), w)

/-! ## The store -/

/-- A number of 64 bits in decimal digits, perhaps after a plus sign; zero for anything else. -/
def versionNumber (s : String) : Nat :=
  let digits := match s.toList with
    | '+' :: rest => rest
    | cs => cs
  let n := digits.foldl (fun n c => n * 10 + (c.toNat - 48)) 0
  if digits.isEmpty || !digits.all Char.isDigit || 18446744073709551616 ≤ n then 0 else n

def bump (t : Tenant) : Tenant :=
  let version := versionNumber (t.metadata.resourceVersion.getD "") + 1
  { t with metadata := { t.metadata with resourceVersion := some (toString version) } }

/-- Change the stored tenant if its version is that of the copy the change was computed from. -/
def guarded (w : World) (copy : Tenant) (change : Tenant → Tenant) : Answer Unit :=
  match w.tenant with
  | none => w.refuse "kubernetes" 404 "no such tenant"
  | some stored =>
    if copy.metadata.resourceVersion = stored.metadata.resourceVersion then
      effect { w with tenant := some (bump (change stored)) }
    else w.refuse "kubernetes" 409 "the object has been modified"

def withFinalizers (t : Tenant) (f : Option (List String) → Option (List String)) : Tenant :=
  { t with metadata := { t.metadata with finalizers := f t.metadata.finalizers } }

def store (w : World) : (c : StoreCall) → Answer c.Reply
  | .get space name =>
    w.reply <| w.tenant.filter fun t =>
      t.metadata.spaceName = space && t.metadata.name = some name
  | .replaceStatus t s => w.guarded t fun stored => { stored with status := some s }
  | .addFinalizer t f => w.guarded t fun stored => withFinalizers stored fun fs => some (fs.getD [] ++ [f])
  | .removeFinalizer t f =>
    w.guarded t fun stored => withFinalizers stored fun fs => fs.map fun fs => fs.filter (· ≠ f)
  | .clearKeyUpdate _ =>
    effect { w with
      tenant := w.tenant.map fun stored =>
        bump { stored with spec := { stored.spec with requiresKeyUpdate := false } } }

/-! ## The hierarchy of namespaces -/

def inSpace (space name : String) : String := space ++ "/" ++ name

def isIn (space anchor : String) : Bool := (Text.dropStart? (space ++ "/").toList anchor.toList).isSome

def hierarchy (w : World) : (c : HierarchyCall) → Answer c.Reply
  | .anchorExists p n => w.reply (w.anchors.contains (inSpace p n))
  | .createAnchor p n =>
    if w.hidden.contains p then w.refuse "kubernetes" 404 "namespace not found"
    else effect { w with anchors := w.anchors.insert (inSpace p n) }
  | .deleteAnchor p n =>
    if w.anchors.any (isIn n) then w.refuse "kubernetes" 403 "subnamespaces still exist"
    else if w.anchors.contains (inSpace p n) then
      effect { w with anchors := w.anchors.filter (· ≠ inSpace p n) }
    else w.refuse "kubernetes" 404 "anchor not found"
  | .getSecret space n => w.reply (w.secrets.get? (inSpace space n))
  | .createSecret space s =>
    if w.hidden.contains space then w.refuse "kubernetes" 404 "namespace not found"
    else effect { w with secrets := w.secrets.insert (inSpace space (s.metadata.name.getD "")) s }

/-! ## The hardware service -/

def collectionKey (k : Kind) (name : String) : String := k.name ++ " " ++ name

def withMembers (w : World) (key : String) (c : Collection) (members : List String) : World :=
  { w with collections := w.collections.insert key { c with members := members } }

/-- The groups in the order of their keys. -/
def groups (w : World) : List Collection :=
  (w.collections.filter fun p => (Text.dropStart? "group ".toList p.1.toList).isSome).map (·.2)

def hardware (w : World) : (c : HardwareCall) → Answer c.Reply
  | .get k n => w.reply (w.collections.get? (collectionKey k n))
  | .create k c =>
    if w.collections.contains (collectionKey k c.name) then
      w.refuse "hsm" 409 "collection already exists"
    else effect { w with collections := w.collections.insert (collectionKey k c.name) c }
  | .delete k n =>
    if w.collections.contains (collectionKey k n) then
      effect { w with collections := w.collections.erase (collectionKey k n) }
    else w.refuse "hsm" 404 "no such collection"
  | .add k n m =>
    match w.collections.get? (collectionKey k n) with
    | none => w.refuse "hsm" 404 "no such collection"
    | some c =>
      if c.members.contains m then w.refuse "hsm" 409 "member already exists"
      else effect (w.withMembers (collectionKey k n) c (c.members ++ [m]))
  | .remove k n m =>
    match w.collections.get? (collectionKey k n) with
    | none => w.refuse "hsm" 404 "no such member"
    | some c =>
      if c.members.contains m then
        effect (w.withMembers (collectionKey k n) c (c.members.filter (· ≠ m)))
      else w.refuse "hsm" 404 "no such member"
  | .listGroups => w.reply w.groups
  | .listComponents type role => w.reply ((w.components.get? (type ++ "/" ++ role)).getD [])

/-! ## The identity provider -/

def identities (w : World) : (c : IdentityCall) → Answer c.Reply
  | .find n => w.reply (w.identity.find? fun g => g.name = n)
  | .create g =>
    effect { w with identity := w.identity ++ [{ g with id := some ("id-" ++ g.name) }] }
  | .delete id =>
    if w.identity.any fun g => g.id = some id then
      effect { w with identity := w.identity.filter fun g => g.id ≠ some id }
    else w.refuse "keycloak" 404 "no such group"

/-! ## The engine that keeps keys -/

/-- What is kept for a write: a key is kept with a public part, anything else as it is written. -/
def kept (path : String) (body : Json) : Json :=
  if Text.occurs "/keys/".toList path.toList then
    Json.ofMembers [("type", (body.member? "type").getD .null),
      ("keys", Json.ofMembers [("1", Json.ofMembers [("public_key", .string ("pem " ++ path))])])]
  else body

def keys (w : World) : (c : VaultCall) → Answer c.Reply
  | .read p => w.reply (w.vault.get? p)
  | .write p body => effect { w with vault := w.vault.insert p (kept p body) }
  | .delete p =>
    if w.vault.contains p then effect { w with vault := w.vault.erase p }
    else w.refuse "vault" 404 "not found"

/-! ## Hooks -/

def hooks (w : World) : (c : HookCall) → Answer c.Reply
  | .post url _ _ _ => w.reply ((w.hookStatus.get? url).getD 200)
  | .listGlobal => w.reply w.globals
  | .readSecret space n => w.reply (w.hookSecrets.get? (inSpace space n))

def answer (w : World) : (c : Call) → Answer c.Reply
  | .store c => w.store c
  | .hierarchy c => w.hierarchy c
  | .hardware c => w.hardware c
  | .identity c => w.identities c
  | .vault c => w.keys c
  | .hook c => w.hooks c

end World

end Tenancy.Rehearsal

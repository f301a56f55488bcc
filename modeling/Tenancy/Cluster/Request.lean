import Tenancy.Cluster.Report
import Tenancy.Dialogue
import Tenancy.Error
import Tenancy.Http.Status
import Tenancy.Json.Reader
import Tenancy.Json.Record
import Tenancy.Text.Percent

/-!
# Requests to the cluster

The API server of the cluster keeps objects under addresses made of their group, version, namespace,
plural and name. It answers with the object, or from 400 to 599 with a refusal. A refusal with the
reason `NotFound` means that the object is not there. A request without a name, or with a name that
cannot stand in an address, is never sent.
-/

namespace Tenancy.Cluster

open Text (Bytes)

structure Request where
  method : String
  /-- The path and the query. -/
  uri : String
  contentType : Option String := none
  body : Option Json := none
  deriving Inhabited

structure Reply where
  status : Nat
  body : Bytes
  deriving DecidableEq, Repr, Inhabited

/-- The API server: a request is answered, or the exchange fails. -/
def Server : Interface where
  Query := Request
  Answer _ := Except Unit Reply

/-- A program over requests to the API server that may end in an error. -/
abbrev ServerJob (α : Type) := ExceptT Error (Dialogue Server) α

/-! ## Addresses -/

/-- A kind of objects: where they are, without the namespace. -/
structure Resource where
  /-- The group and version. -/
  root : String
  plural : String
  deriving DecidableEq, Repr

namespace Resource

def tenants : Resource := ⟨"/apis/tapms.hpe.com/v1alpha3", "tenants"⟩

def globalHooks : Resource := ⟨"/apis/tapms.hpe.com/v1alpha1", "globaltenanthooks"⟩

def anchors : Resource := ⟨"/apis/hnc.x-k8s.io/v1alpha2", "subnamespaceanchors"⟩

def secrets : Resource := ⟨"/api/v1", "secrets"⟩

def inSpace (r : Resource) (space : String) : String :=
  r.root ++ "/namespaces/" ++ space ++ "/" ++ r.plural

/-- All objects of a kind. -/
def everywhere (r : Resource) : String := r.root ++ "/" ++ r.plural

end Resource

def allowedInPath (c : Char) : Bool :=
  let n := c.toNat
  n = 0x21 || n = 0x22 || (0x24 ≤ n && n ≤ 0x3B) || n = 0x3D || (0x40 ≤ n && n ≤ 0x5F) ||
    (0x61 ≤ n && n ≤ 0x7E) || 0x80 ≤ n

def allowedInQuery (c : Char) : Bool :=
  let n := c.toNat
  n = 0x21 || (0x24 ≤ n && n ≤ 0x3B) || n = 0x3D || (0x3F ≤ n && n ≤ 0x7E) || 0x80 ≤ n

/-- The address that a request is sent to, if the text is one. A fragment is dropped. -/
def uri? (s : String) : Option String :=
  let whole := s.toList.takeWhile fun c => c ≠ '#'
  let path := whole.takeWhile fun c => c ≠ '?'
  let query := whole.dropWhile fun c => c ≠ '?'
  if path.all allowedInPath && query.all allowedInQuery then some (String.ofList whole) else none

/-- The query that names the writer of a change. -/
def fieldManager : String := "?" ++ Text.Percent.form [("fieldManager", "tapms-operator")]

/-! ## Answers -/

def refusalRecord : Record Refusal :=
  Record.const Refusal.mk
    |>.also (.required "status" Reading.text)
    |>.also (.default "message" Reading.text "")
    |>.also (.default "reason" Reading.text "")
    |>.also (.required "code" Reading.word16)

/-- The refusal that an answer from 400 to 599 gives. One that cannot be read is made from the status. -/
def refusalOf (status : Nat) (body : String) : Refusal :=
  match Reading.decodeText refusalRecord.decode body with
  | .ok r => r
  | .error _ =>
    ⟨Http.statusText status, Text.quoted body, "Failed to parse error data", status⟩

/-- The error for an answer that makes no sense, or none at all. -/
def nonsense (what : String) : Error := .clusterFailed (.reported what)

/-- The text of an answer that is no refusal. -/
def accepted : Except Unit Reply → Except Error String
  | .error _ => .error (nonsense "the exchange failed")
  | .ok r =>
    match Text.utf8Decode? r.body with
    | none => .error (nonsense "the answer is no text")
    | some body =>
      if 400 ≤ r.status ∧ r.status < 600 then .error (.refused (refusalOf r.status body))
      else .ok body

def objectIn {α : Type} (decode : Reading.Decoder α) (body : String) : Except Error α :=
  match Reading.decodeText decode body with
  | .ok a => .ok a
  | .error _ => .error (nonsense "the answer is no such object")

/-- What an attempt to read comes to when the object may not be there. -/
def orAbsent {α : Type} : Except Error α → Except Error (Option α)
  | .ok a => .ok (some a)
  | .error (.refused r) => if r.reason = "NotFound" then .ok none else .error (.refused r)
  | .error e => .error e

/-! ## Requests -/

/-- Send a request, if its address is one, and take the text of the answer. -/
def send (r : Request) : ServerJob String :=
  match uri? r.uri with
  | none => throw (nonsense "the address is none")
  | some uri => do
    let reply ← ExceptT.lift (Dialogue.query (I := Server) { r with uri := uri })
    liftExcept (accepted reply)

/-- The address of an object, which has to have a name. -/
def objectUri (collection name : String) : Except Error String :=
  if name = "" then .error (nonsense "a name is needed") else .ok (collection ++ "/" ++ name)

def get {α : Type} (decode : Reading.Decoder α) (collection name : String) : ServerJob α := do
  let uri ← liftExcept (objectUri collection name)
  liftExcept (objectIn decode (← send { method := "GET", uri := uri }))

/-- Read an object that may not be there. -/
def get? {α : Type} (decode : Reading.Decoder α) (collection name : String) :
    ServerJob (Option α) := do
  liftExcept (orAbsent (← ExceptT.lift (get decode collection name).run))

def create {α : Type} (decode : Reading.Decoder α) (collection : String) (object : Json) :
    ServerJob Unit := do
  let body ← send { method := "POST", uri := collection, contentType := some "application/json",
                    body := some object }
  discard (liftExcept (objectIn decode body) : ServerJob α)

/-- The answer to a deletion is a report, whatever it reports, or else the deleted object. -/
def deletedIn {α : Type} (decode : Reading.Decoder α) (body : String) : Except Error Unit := do
  let value ← objectIn (Reading.anything 0) body
  if value.member? "kind" == some (.string "Status") then objectIn Report.decode body
  else discard (objectIn decode body)

def delete {α : Type} (decode : Reading.Decoder α) (collection name : String) : ServerJob Unit := do
  let uri ← liftExcept (objectUri collection name)
  let body ← send { method := "DELETE", uri := uri, contentType := some "application/json",
                    body := some (.object []) }
  liftExcept (deletedIn decode body)

/-- Apply a merge patch to an object, or to a part of it that has an address of its own. -/
def patch {α : Type} (decode : Reading.Decoder α) (collection name part : String) (changes : Json) :
    ServerJob Unit := do
  let uri ← liftExcept (objectUri collection name)
  let body ← send { method := "PATCH", uri := uri ++ part ++ fieldManager,
                    contentType := some "application/merge-patch+json", body := some changes }
  discard (liftExcept (objectIn decode body) : ServerJob α)

end Tenancy.Cluster

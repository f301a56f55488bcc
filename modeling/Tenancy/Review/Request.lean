import Tenancy.Cluster.Report
import Tenancy.Tenant.Codec

/-!
# Requests for review

Before the cluster stores a change it asks for a review. The question comes in an envelope that says in
which version of the interface it is written; the answer goes back in such an envelope. The question
says what is done to which kind of object, by whom, and shows the object as it is to be and as it was.
-/

namespace Tenancy.Review

inductive Operation where
  | create
  | update
  | delete
  /-- Something is connected to the object. -/
  | connect
  deriving DecidableEq, Repr, Inhabited

def Operation.ofName? : String → Option Operation
  | "CREATE" => some create
  | "UPDATE" => some update
  | "DELETE" => some delete
  | "CONNECT" => some connect
  | _ => none

/-- The version and kind that an envelope gives. -/
structure Header where
  apiVersion : String
  kind : String
  deriving DecidableEq, Repr, Inhabited

/-- What is asked, as far as the answer depends on it. -/
structure Request where
  uid : String
  operation : Operation
  object : Option Tenant := none
  oldObject : Option Tenant := none
  deriving DecidableEq, Repr, Inhabited

namespace Request

/-- A kind of object: its group, version and name. -/
def kindRecord : Record Unit :=
  Record.const (fun (_ _ _ : String) => ())
    |>.also (.required "group" Reading.text)
    |>.also (.required "version" Reading.text)
    |>.also (.required "kind" Reading.text)

/-- A resource: its group, version and name, and perhaps the version of its interface. -/
def resourceRecord : Record Unit :=
  Record.const (fun (_ _ _ _ : String) => ())
    |>.also (.required "group" Reading.text)
    |>.also (.required "version" Reading.text)
    |>.also (.required "resource" Reading.text)
    |>.also (.default "api_version" Reading.text "")

def userRecord : Record Unit :=
  Record.const (fun (_ : Option (Dict (List String))) (_ : Option (List String))
      (_ _ : Option String) => ())
    |>.also (.optional "extra" (Reading.dict (Reading.list Reading.text)))
    |>.also (.optional "groups" (Reading.list Reading.text))
    |>.also (.optional "uid" Reading.text)
    |>.also (.optional "username" Reading.text)

def record : Record Request :=
  Record.const (fun uid (_ _ : Unit) (_ : Option String) (_ _ : Option Unit) (_ : Option String)
      (_ : String) (_ : Option String) operation (_ : Unit) object oldObject (_ : Bool)
      (_ : Option Json) => { uid, operation, object, oldObject })
    |>.also (.required "uid" Reading.text)
    |>.also (.required "kind" kindRecord.decode)
    |>.also (.required "resource" resourceRecord.decode)
    |>.also (.optional "subResource" Reading.text)
    |>.also (.optional "requestKind" kindRecord.decode)
    |>.also (.optional "requestResource" resourceRecord.decode)
    |>.also (.optional "requestSubResource" Reading.text)
    |>.also (.default "name" Reading.text "")
    |>.also (.optional "namespace" Reading.text)
    |>.also (.required "operation" (Reading.choice Operation.ofName?))
    |>.also (.required "userInfo" userRecord.decodeOpen)
    |>.also (.nullable "object" Tenant.decode)
    |>.also (.nullable "oldObject" Tenant.decode)
    |>.also (.default "dryRun" Reading.boolean false)
    |>.also (.optional "options" (Reading.anything 2))

end Request

/-- An envelope with a question in it, if it has one. -/
structure Envelope where
  header : Header
  request : Option Request
  deriving DecidableEq, Repr, Inhabited

namespace Envelope

def responseRecord : Record Unit :=
  Record.const (fun (_ : String) (_ : Bool) (_ : Unit) (_ : Option (List Int)) (_ : Option Unit)
      (_ : Dict String) (_ : Option (List String)) => ())
    |>.also (.required "uid" Reading.text)
    |>.also (.required "allowed" Reading.boolean)
    |>.also (.required "status" Cluster.Report.decode)
    |>.also (.nullable "patch" (Reading.list (Reading.integer 0 255)))
    |>.also (.nullable "patchType" (Reading.choice fun
      | "JSONPatch" => some ()
      | _ => none))
    |>.also (.default "auditAnnotations" (Reading.dict Reading.text) [])
    |>.also (.nullable "warnings" (Reading.list Reading.text))

/-- What one member of an envelope says. -/
inductive Part where
  | request (r : Option Request)
  | response
  | other (key : String) (value : Json)

def Part.decode (key : String) (r : Reading) : Decoded Part :=
  match key with
  | "request" => do return .request (← Reading.nullable Request.record.decode r)
  | "response" => do
    discard (Reading.nullable responseRecord.decode r)
    return .response
  | _ => do return .other key (← Reading.anything 1 r)

/-- Decode the members from left to right. A question and an answer may be there once. -/
def parts (seen : List String) : List (Option String × Reading) → Decoded (List Part)
  | [] => .ok []
  | (name, r) :: rest => do
    let key ← Reading.key name
    if seen.contains key then throw .mismatched
    let part ← Part.decode key r
    let seen := if key = "request" ∨ key = "response" then key :: seen else seen
    return part :: (← parts seen rest)

/-- What a part says under a key that is none of its own. -/
def Part.under? (key : String) : Part → Option Json
  | .other k v => if k = key then some v else none
  | _ => none

def Part.question? : Part → Option Request
  | .request r => r
  | _ => none

/-- The text that the parts give once under a key. -/
def textUnder (key : String) (ps : List Part) : Decoded String :=
  match ps.filterMap (Part.under? key) with
  | [Json.string s] => .ok s
  | _ => .error .mismatched

def decode : Reading.Decoder Envelope
  | .object members closed => do
    let ps ← parts [] members
    Reading.finish closed
    let apiVersion ← textUnder "apiVersion" ps
    let kind ← textUnder "kind" ps
    return ⟨⟨apiVersion, kind⟩, ps.findSome? Part.question?⟩
  | other => other.mismatch

end Envelope

end Tenancy.Review

import Tenancy.Metadata

/-!
# Anchors

An anchor named `child` in a namespace asks the controller of the namespace hierarchy to make the
namespace `child` below it. That controller makes the namespace in its own time and reports in the
status how it went.
-/

namespace Tenancy

/-- A namespace wanted below the one that holds the anchor. -/
structure Anchor where
  metadata : Metadata
  /-- What the controller reports, if it has reported; and then the word it reports, if any. -/
  status : Option (Option String) := none
  deriving DecidableEq, Repr, Inhabited

namespace Anchor

def apiVersion : String := "hnc.x-k8s.io/v1alpha2"

def wanted (parent name : String) : Anchor :=
  { metadata := { name := some name, space := some parent } }

/-- The fields of what the controller reports. -/
def statusRecord : Record (Option String) :=
  Record.const id |>.also (.optional "status" Reading.text)

def record : Record Anchor :=
  Record.const (fun metadata (_ : Unit) status => Anchor.mk metadata status)
    |>.also (.required "metadata" Metadata.decode)
    |>.also (.required "spec" (Record.const ()).decode)
    |>.also (.nullable "status" statusRecord.decode)

def decode : Reading.Decoder Anchor := record.decode

def toJson (a : Anchor) : Json :=
  Json.ofMembers <|
    [("apiVersion", .string apiVersion), ("kind", .string "SubnamespaceAnchor"),
      ("metadata", a.metadata.toJson), ("spec", .object [])] ++
    Json.memberOf "status" (fun s => Json.ofMembers (Json.memberOf "status" .string s)) a.status

end Anchor

end Tenancy

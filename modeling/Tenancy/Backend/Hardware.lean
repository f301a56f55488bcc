import Tenancy.Call
import Tenancy.Rest

/-!
# The hardware service over HTTP

Collections travel as JSON. A partition carries its name under `name`, a group under `label`, and only a
group carries a marker; an empty marker is none. Components are found by their type and role.
-/

namespace Tenancy

structure WireCollection where
  name : Option String := none
  label : Option String := none
  description : String := ""
  tags : List String := []
  members : List String := []
  marker : Option String := none
  deriving DecidableEq, Repr, Inhabited

namespace WireCollection

def membersRecord : Record (List String) :=
  Record.const id |>.also (.default "ids" (Reading.list Reading.text) [])

def record : Record WireCollection :=
  Record.const WireCollection.mk
    |>.also (.optional "name" Reading.text)
    |>.also (.optional "label" Reading.text)
    |>.also (.default "description" Reading.text "")
    |>.also (.default "tags" (Reading.list Reading.text) [])
    |>.also (.default "members" membersRecord.decode [])
    |>.also (.optional "exclusiveGroup" Reading.text)

def decode : Reading.Decoder WireCollection := record.decode

def toJson (w : WireCollection) : Json :=
  Json.ofMembers <|
    Json.memberOf "name" .string w.name ++
    Json.memberOf "label" .string w.label ++
    [("description", .string w.description), ("tags", Json.strings w.tags),
      ("members", Json.ofMembers [("ids", Json.strings w.members)])] ++
    Json.memberOf "exclusiveGroup" .string w.marker

/-- How a collection of a kind travels. -/
def ofCollection (k : Kind) (c : Collection) : WireCollection where
  name := if k = .partition then some c.name else none
  label := if k = .group then some c.name else none
  description := c.description
  tags := c.tags
  members := c.members
  marker := if k = .group then c.marker else none

def collection (w : WireCollection) : Collection where
  name := (w.name.or w.label).getD ""
  description := w.description
  tags := w.tags
  members := w.members
  marker := w.marker.filter fun m => m ≠ ""

end WireCollection

namespace Backend.Hardware

def componentRecord : Record String := Record.const id |>.also (.required "ID" Reading.text)

def componentsRecord : Record (List String) :=
  Record.const id |>.also (.default "Components" (Reading.list componentRecord.decode) [])

/-- Where the collections of a kind are. -/
def root : Kind → String
  | .partition => "partitions"
  | .group => "groups"

def collectionPath (k : Kind) (name : String) : String := root k ++ "/" ++ name

def membersPath (k : Kind) (name : String) : String := collectionPath k name ++ "/members"

def memberPath (k : Kind) (name member : String) : String := membersPath k name ++ "/" ++ member

def componentsPath (type role : String) : String :=
  "State/Components?type=" ++ type ++ "&role=" ++ role

def perform (c : Rest.Client) : (call : HardwareCall) → WireJob call.Reply
  | .get k n => do
    return (← c.getJson (collectionPath k n) WireCollection.decode).map WireCollection.collection
  | .create k x => discard (c.expect "POST" (root k) (some (WireCollection.ofCollection k x).toJson))
  | .delete k n => discard (c.expect "DELETE" (collectionPath k n) none)
  | .add k n m =>
    discard (c.expect "POST" (membersPath k n) (some (Json.ofMembers [("id", .string m)])))
  | .remove k n m => discard (c.expect "DELETE" (memberPath k n m) none)
  | .listGroups => do
    let groups ← c.getJson "groups" (Reading.list WireCollection.decode)
    return (groups.getD []).map WireCollection.collection
  | .listComponents type role => do
    return (← c.getJson (componentsPath type role) componentsRecord.decode).getD []

end Backend.Hardware

end Tenancy

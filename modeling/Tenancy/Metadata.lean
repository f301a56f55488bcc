import Tenancy.Instant
import Tenancy.Json.Record

/-!
# Metadata of cluster objects

Every object of the cluster has metadata of one shape. All of it is optional; what is not named here
is not kept. The resource version changes with every write of the object, so a writer that names the
version it read is refused when someone else wrote in between.
-/

namespace Tenancy

structure Metadata where
  name : Option String := none
  generateName : Option String := none
  space : Option String := none
  finalizers : Option (List String) := none
  resourceVersion : Option String := none
  labels : Option (Dict String) := none
  annotations : Option (Dict String) := none
  uid : Option String := none
  generation : Option Int := none
  creationTimestamp : Option Instant := none
  deletionTimestamp : Option Instant := none
  deriving DecidableEq, Repr, Inhabited

namespace Metadata

/-- The name, or what stands in for it while the cluster has given none. -/
def anyName (m : Metadata) : String := (m.name.orElse fun _ => m.generateName).getD ""

/-- The namespace; the empty text where there is none. -/
def spaceName (m : Metadata) : String := m.space.getD ""

def finalizerList (m : Metadata) : List String := m.finalizers.getD []

def timestamp : Reading.Decoder Instant := fun r => do
  match Instant.ofText? (← Reading.text r) with
  | some t => pure t
  | none => throw .mismatched

def record : Record Metadata :=
  Record.const Metadata.mk
    |>.also (.optional "name" Reading.text)
    |>.also (.optional "generateName" Reading.text)
    |>.also (.optional "namespace" Reading.text)
    |>.also (.optional "finalizers" (Reading.list Reading.text))
    |>.also (.optional "resourceVersion" Reading.text)
    |>.also (.optional "labels" (Reading.dict Reading.text))
    |>.also (.optional "annotations" (Reading.dict Reading.text))
    |>.also (.optional "uid" Reading.text)
    |>.also (.optional "generation" (Reading.integer (-9223372036854775808) 9223372036854775807))
    |>.also (.optional "creationTimestamp" timestamp)
    |>.also (.optional "deletionTimestamp" timestamp)

def decode : Reading.Decoder Metadata := record.decodeOpen

/-- Metadata as JSON; what is not there is left out. -/
def toJson (m : Metadata) : Json :=
  Json.ofMembers <|
    Json.memberOf "name" .string m.name ++
    Json.memberOf "generateName" .string m.generateName ++
    Json.memberOf "namespace" .string m.space ++
    Json.memberOf "finalizers" Json.strings m.finalizers ++
    Json.memberOf "resourceVersion" .string m.resourceVersion ++
    Json.memberOf "labels" Json.ofTexts m.labels ++
    Json.memberOf "annotations" Json.ofTexts m.annotations ++
    Json.memberOf "uid" .string m.uid ++
    Json.memberOf "generation" (fun n => .number (.int n)) m.generation ++
    Json.memberOf "creationTimestamp" (fun t => .string t.toText) m.creationTimestamp ++
    Json.memberOf "deletionTimestamp" (fun t => .string t.toText) m.deletionTimestamp

end Metadata

end Tenancy

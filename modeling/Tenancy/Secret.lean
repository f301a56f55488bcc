import Tenancy.Metadata
import Tenancy.Text.Base64

/-!
# Secrets

A secret of the cluster keeps bytes by key, written in Base64. `Secret.copyTo` makes the copy of a
secret for another namespace: its contents, type, immutability and labels, and no other metadata of
the source, so that the copy has a life of its own.
-/

namespace Tenancy

open Text (Bytes)

structure Secret where
  metadata : Metadata := {}
  data : Option (Dict Bytes) := none
  stringData : Option (Dict String) := none
  type : Option String := none
  immutable : Option Bool := none
  deriving DecidableEq, Repr, Inhabited

namespace Secret

/-- Bytes in Base64; null for none. -/
def bytes : Reading.Decoder Bytes :=
  Reading.nullIs [] fun r => do
    match Text.Base64.decode? (← Reading.text r) with
    | some bs => pure bs
    | none => throw .mismatched

/-- A text that has to be a certain one. -/
def exactly (expected : String) : Reading.Decoder Unit := fun r => do
  if (← Reading.text r) = expected then pure () else throw .mismatched

def record : Record Secret :=
  Record.const (fun (_ _ : Unit) metadata data stringData type immutable =>
      Secret.mk metadata data stringData type immutable)
    |>.also (.default "apiVersion" (exactly "v1") ())
    |>.also (.default "kind" (exactly "Secret") ())
    |>.also (.default "metadata" (Reading.nullIs {} Metadata.decode) {})
    |>.also (.optional "data" (Reading.dict bytes))
    |>.also (.optional "stringData" (Reading.dict Reading.text))
    |>.also (.optional "type" Reading.text)
    |>.also (.optional "immutable" Reading.boolean)

def decode : Reading.Decoder Secret := record.decodeOpen

def toJson (s : Secret) : Json :=
  Json.ofMembers <|
    [("apiVersion", .string "v1"), ("kind", .string "Secret"), ("metadata", s.metadata.toJson)] ++
    Json.memberOf "data" (fun d => Json.ofTexts (d.mapValues Text.Base64.encode)) s.data ++
    Json.memberOf "stringData" Json.ofTexts s.stringData ++
    Json.memberOf "type" .string s.type ++
    Json.memberOf "immutable" .bool s.immutable

def copyTo (s : Secret) (name space : String) : Secret :=
  { s with metadata := { name := some name, space := some space, labels := s.metadata.labels } }

end Secret

end Tenancy

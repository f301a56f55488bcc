import Tenancy.Json.Value

/-!
# Schemas of objects

A schema tells the cluster which objects to accept: which fields there are, which of them have to be
given, and what stands for a field that is not. A field that may be left out either has a default or may
be null.
-/

namespace Tenancy

structure Schema where
  description : Option String := none
  /-- The value that stands for one that is not given. -/
  fallback : Option Json := none
  nullable : Bool := false
  /-- The type and what belongs to it. -/
  type : List (String × Json)

namespace Schema

def toJson (s : Schema) : Json :=
  Json.ofMembers <|
    Json.memberOf "description" .string s.description ++
    Json.memberOf "default" id s.fallback ++
    (if s.nullable then [("nullable", .bool true)] else []) ++ s.type

def text : Schema := ⟨none, none, false, [("type", .string "string")]⟩

def boolean : Schema := ⟨none, none, false, [("type", .string "boolean")]⟩

def choice (texts : List String) : Schema :=
  ⟨none, none, false, [("type", .string "string"), ("enum", Json.strings texts)]⟩

def list (item : Schema) : Schema :=
  ⟨none, none, false, [("type", .string "array"), ("items", item.toJson)]⟩

/-- The schema with these words about it. -/
def about (s : Schema) (words : String) : Schema := { s with description := some words }

structure Field where
  name : String
  schema : Schema
  required : Bool := false

namespace Field

def needed (name : String) (s : Schema) (words : String) : Field := ⟨name, s.about words, true⟩

/-- A field that may be left out or null. -/
def optional (name : String) (s : Schema) (words : String) : Field :=
  ⟨name, { s.about words with nullable := true }, false⟩

def withDefault (name : String) (s : Schema) (value : Json) (words : String) : Field :=
  ⟨name, { s.about words with fallback := some value }, false⟩

end Field

/-- Objects with some fields. Neither an empty list of fields nor one of needed fields is written. -/
def object (fields : List Field) : Schema :=
  let needed := (fields.filter Field.required).map Field.name
  ⟨none, none, false,
    [("type", .string "object")] ++
    (if fields.isEmpty then []
      else [("properties", Json.ofMembers (fields.map fun f => (f.name, f.schema.toJson)))]) ++
    (if needed.isEmpty then [] else [("required", Json.strings needed)])⟩

end Schema

end Tenancy

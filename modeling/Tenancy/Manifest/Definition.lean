import Tenancy.Manifest.Schema

/-!
# Definitions of kinds of objects

A definition makes a kind of objects known to the cluster: its group and version, its names, where its
objects live, the columns of a listing, and the schemas of what is declared in an object and of the
status that is kept with it.
-/

namespace Tenancy

structure Column where
  name : String
  type : String
  /-- The place in the object. -/
  path : String
  deriving DecidableEq, Repr, Inhabited

namespace Column

def toJson (c : Column) : Json :=
  Json.ofMembers [("name", .string c.name), ("type", .string c.type), ("jsonPath", .string c.path)]

end Column

structure Definition where
  group : String
  version : String
  kind : String
  singular : String
  plural : String
  shortNames : List String := []
  /-- Objects live in namespaces. -/
  spaced : Bool := true
  columns : List Column := []
  /-- What is declared in an object. -/
  spec : Schema
  /-- What is kept with an object, by others than those who declare it. -/
  status : Option Schema := none

namespace Definition

def words (d : Definition) : String :=
  "Auto-generated derived type for " ++ d.kind ++ "Spec via \x60CustomResource\x60"

def schema (d : Definition) : Schema :=
  let status := d.status.map fun s => (⟨"status", { s with nullable := true }, false⟩ : Schema.Field)
  let whole := (Schema.object (⟨"spec", d.spec, true⟩ :: status.toList)).about d.words
  { whole with type := ("title", .string d.kind) :: whole.type }

def namesJson (d : Definition) : Json :=
  Json.ofMembers [("categories", .array []), ("kind", .string d.kind), ("plural", .string d.plural),
    ("singular", .string d.singular), ("shortNames", Json.strings d.shortNames)]

def versionJson (d : Definition) : Json :=
  Json.ofMembers [("name", .string d.version), ("served", .bool true), ("storage", .bool true),
    ("schema", Json.ofMembers [("openAPIV3Schema", d.schema.toJson)]),
    ("additionalPrinterColumns", .array (d.columns.map Column.toJson)),
    ("subresources", Json.ofMembers (if d.status.isSome then [("status", .object [])] else []))]

def toJson (d : Definition) : Json :=
  Json.ofMembers [("apiVersion", .string "apiextensions.k8s.io/v1"),
    ("kind", .string "CustomResourceDefinition"),
    ("metadata", Json.ofMembers [("name", .string (d.plural ++ "." ++ d.group))]),
    ("spec", Json.ofMembers [("group", .string d.group),
      ("scope", .string (if d.spaced then "Namespaced" else "Cluster")),
      ("names", d.namesJson), ("versions", .array [d.versionJson])])]

end Definition

end Tenancy

import Tenancy.Json.Reading

/-!
# Records in JSON

A record is written as an object, each field under its key, or as an array of its fields in their
declared order. `Record α` describes the fields once, and both forms are decoded from it. In an
object the members are checked from left to right: unknown keys are passed over, a repeated key is a
mismatch. In an array no element may be left after the last field.

Some records of the cluster are open: they are objects only, and of two members with one key the
later counts. Others are objects only because their other members are read as well: what stands under
an unknown key is not kept, but it has to be a value.
-/

namespace Tenancy

/-- One field of a record: its key, its shape, and what it is where an object or an array leaves it
out. -/
structure Field (α : Type) where
  key : String
  decode : Reading.Decoder α
  inObject : Option α
  inArray : Option α

namespace Field

variable {α : Type}

/-- A field that has to be there. -/
def required (key : String) (decode : Reading.Decoder α) : Field α := ⟨key, decode, none, none⟩

def default (key : String) (decode : Reading.Decoder α) (value : α) : Field α :=
  ⟨key, decode, some value, some value⟩

/-- A field that may be null or left out. -/
def optional (key : String) (decode : Reading.Decoder α) : Field (Option α) :=
  ⟨key, Reading.nullable decode, some none, some none⟩

/-- A field that may be null, and left out of an object but not of an array. -/
def nullable (key : String) (decode : Reading.Decoder α) : Field (Option α) :=
  ⟨key, Reading.nullable decode, some none, none⟩

end Field

/-- The two written forms of a record. -/
inductive Form where
  | object
  | array
  deriving DecidableEq, Repr

/-- The fields of a record with what they make together. -/
structure Record (α : Type) where
  /-- The keys in their declared order, each with a check of its shape. -/
  fields : List (String × (Reading → Decoded Unit))
  /-- The record made of its fields' readings, in their declared order. -/
  build : Form → List (Option Reading) → Decoded α

namespace Record

variable {α β : Type}

def field (f : Field α) : Record α where
  fields := [(f.key, fun r => (f.decode r).map fun _ => ())]
  build form slots := match slots with
    | some r :: _ => f.decode r
    | _ =>
      let absent := match form with
        | .object => f.inObject
        | .array => f.inArray
      match absent with
      | some a => .ok a
      | none => .error .mismatched

def const (a : α) : Record α := ⟨[], fun _ _ => .ok a⟩

/-- A function of one record applied to another; the fields of the first come first. -/
def apply (f : Record (α → β)) (r : Record α) : Record β where
  fields := f.fields ++ r.fields
  build form slots := do
    let g ← f.build form (slots.take f.fields.length)
    let a ← r.build form (slots.drop f.fields.length)
    pure (g a)

def also (r : Record (α → β)) (f : Field α) : Record β := r.apply (field f)

def check? (r : Record α) (name : String) : Option (Reading → Decoded Unit) :=
  (r.fields.find? fun p => p.1 = name).map (·.2)

/-- Check the members of an object from left to right, those under unknown keys by `other`. -/
def scan (r : Record α) (other : Reading → Decoded Unit) (seen : List String) :
    List (Option String × Reading) → Decoded Unit
  | [] => .ok ()
  | (name, value) :: rest => do
    let k ← Reading.key name
    match r.check? k with
    | none => other value
    | some check =>
      if seen.contains k then throw .mismatched
      check value
    r.scan other (k :: seen) rest

def lookup (members : List (Option String × Reading)) (name : String) : Option Reading :=
  (members.find? fun m => m.1 = some name).map (·.2)

/-- Check the elements of an array against the fields, from left to right. -/
def scanItems : List (String × (Reading → Decoded Unit)) → List Reading → Decoded Unit
  | _, [] => .ok ()
  | [], _ :: _ => .ok ()
  | (_, check) :: fields, item :: items => do
    check item
    scanItems fields items

/-- Decode a record from an object, with a check of the members under unknown keys. -/
def ofMembers (r : Record α) (other : Reading → Decoded Unit)
    (members : List (Option String × Reading)) (closed : Bool) : Decoded α := do
  r.scan other [] members
  Reading.finish closed
  r.build .object (r.fields.map fun f => lookup members f.1)

def decode (r : Record α) : Reading.Decoder α
  | .object members closed => r.ofMembers Reading.ignore members closed
  | .array items closed => do
    scanItems r.fields items
    if items.length < r.fields.length then Reading.finish closed
    let a ← r.build .array (items.map some)
    if r.fields.length < items.length then throw .malformed
    Reading.finish closed
    pure a
  | other => other.mismatch

/-- Decode a record that is an object, at a place `depth` levels deep, where all members are read. -/
def decodeWhole (r : Record α) (depth : Nat) : Reading.Decoder α
  | .object members closed =>
    r.ofMembers (fun v => discard (Reading.anything (depth + 1) v)) members closed
  | other => other.mismatch

def decodeOpen (r : Record α) : Reading.Decoder α
  | .object members closed => do
    members.forM fun m => do
      let k ← Reading.key m.1
      match r.check? k with
      | none => m.2.ignore
      | some check => check m.2
    Reading.finish closed
    r.build .object (r.fields.map fun f => lookup members.reverse f.1)
  | other => other.mismatch

end Record

end Tenancy

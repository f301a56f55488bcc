import Tenancy.Json.Value

/-!
# What a JSON text says, in the order in which it says it

A `Reading` keeps what a value forgets: the order of the members, repeated keys, and the place where
a text stops being JSON. Decoding walks a reading from left to right, so of two faults the first one
in the text is reported: `malformed` where the text is no JSON, `mismatched` where it is JSON of
another shape than the wanted one. A number beyond binary64 and a text with half a surrogate pair are
faults only where they are wanted, so the rest of a text that nobody looks at may hold them.
-/

namespace Tenancy

/-- A JSON text as read from left to right. -/
inductive Reading where
  /-- The text stops being JSON here. -/
  | broken
  | null
  | bool (b : Bool)
  /-- A number, unless it is beyond binary64. -/
  | number (value : Option Number)
  /-- A text, unless it has half a surrogate pair. -/
  | string (value : Option String)
  /-- The items of an array, and whether it was closed after them. -/
  | array (items : List Reading) (closed : Bool)
  /-- The members of an object, each with its key, unless that has half a surrogate pair, and whether
  the object was closed after them. -/
  | object (members : List (Option String × Reading)) (closed : Bool)
  deriving Inhabited

/-- Why a text does not say what was wanted. -/
inductive DecodeFault where
  /-- The text is no JSON. -/
  | malformed
  /-- The text is JSON of another shape. -/
  | mismatched
  deriving DecidableEq, Repr, Inhabited

abbrev Decoded (α : Type) := Except DecodeFault α

namespace Reading

mutual

/-- The reading of a value, with the members in their order. -/
def ofJson : Json → Reading
  | .null => .null
  | .bool b => .bool b
  | .number n => .number (some n)
  | .string s => .string (some s)
  | .array items => .array (ofItems items) true
  | .object members => .object (ofMembers members) true

def ofItems : List Json → List Reading
  | [] => []
  | j :: rest => ofJson j :: ofItems rest

def ofMembers : List (String × Json) → List (Option String × Reading)
  | [] => []
  | (key, j) :: rest => (some key, ofJson j) :: ofMembers rest

end

mutual

/-- The text is JSON to the end of this value. -/
def isSound : Reading → Bool
  | .broken => false
  | .array items closed => itemsSound items && closed
  | .object members closed => membersSound members && closed
  | _ => true

def itemsSound : List Reading → Bool
  | [] => true
  | r :: rest => r.isSound && itemsSound rest

def membersSound : List (Option String × Reading) → Bool
  | [] => true
  | (_, r) :: rest => r.isSound && membersSound rest

end

/-- Something else was wanted here. A fault in a single number or text comes first. -/
def mismatch {α : Type} : Reading → Decoded α
  | .broken => .error .malformed
  | .number none => .error .malformed
  | .string none => .error .malformed
  | _ => .error .mismatched

/-- Nothing is wanted here. -/
def ignore (r : Reading) : Decoded Unit :=
  if r.isSound then .ok () else .error .malformed

/-- The end of an array or object. -/
def finish (closed : Bool) : Decoded Unit :=
  if closed then .ok () else .error .malformed

def key : Option String → Decoded String
  | some s => .ok s
  | none => .error .malformed

mutual

/-- The value that the text says, nested at most `levels` deep. -/
def toJson (levels : Nat) : Reading → Decoded Json
  | .broken => .error .malformed
  | .null => .ok .null
  | .bool b => .ok (.bool b)
  | .number none => .error .malformed
  | .number (some n) => .ok (.number n)
  | .string none => .error .malformed
  | .string (some s) => .ok (.string s)
  | .array items closed => do
    if levels = 0 then throw .malformed
    let values ← itemsToJson (levels - 1) items
    finish closed
    pure (.array values)
  | .object members closed => do
    if levels = 0 then throw .malformed
    let values ← membersToJson (levels - 1) members
    finish closed
    pure (Json.ofMembers values)

def itemsToJson (levels : Nat) : List Reading → Decoded (List Json)
  | [] => .ok []
  | r :: rest => do
    let j ← r.toJson levels
    let js ← itemsToJson levels rest
    pure (j :: js)

/-- The values of the members of an object, in the order of the text. -/
def membersToJson (levels : Nat) : List (Option String × Reading) → Decoded (List (String × Json))
  | [] => .ok []
  | (name, r) :: rest => do
    let k ← key name
    let j ← r.toJson levels
    let ms ← membersToJson levels rest
    pure ((k, j) :: ms)

end

/-- A value may be nested this deep. -/
def maxLevels : Nat := 127

/-! ## Decoding simple shapes -/

abbrev Decoder (α : Type) := Reading → Decoded α

def text : Decoder String
  | .string (some s) => .ok s
  | r => r.mismatch

def boolean : Decoder Bool
  | .bool b => .ok b
  | r => r.mismatch

/-- An integer in a range. -/
def integer (low high : Int) : Decoder Int
  | .number (some (.int n)) => if low ≤ n ∧ n ≤ high then .ok n else .error .mismatched
  | r => r.mismatch

def word16 : Decoder Nat := fun r => (integer 0 65535 r).map Int.toNat

def word32 : Decoder Nat := fun r => (integer 0 4294967295 r).map Int.toNat

/-- Null, or else a value of the given shape. -/
def nullable {α : Type} (decode : Decoder α) : Decoder (Option α)
  | .null => .ok none
  | r => (decode r).map some

/-- Null for the empty value, or else a value of the given shape. -/
def nullIs {α : Type} (empty : α) (decode : Decoder α) : Decoder α
  | .null => .ok empty
  | r => decode r

def list {α : Type} (decode : Decoder α) : Decoder (List α)
  | .array items closed => do
    let values ← items.mapM decode
    finish closed
    pure values
  | r => r.mismatch

/-- An object whose members all have one shape; of two with one key the later stays. -/
def dict {α : Type} (decode : Decoder α) : Decoder (Dict α)
  | .object members closed => do
    let pairs ← members.mapM fun m => do
      let k ← key m.1
      let v ← decode m.2
      pure (k, v)
    finish closed
    pure (Dict.ofList pairs)
  | r => r.mismatch

/-- One of a set of names, as a text, or as an object with that single key and null. -/
def choice {α : Type} (ofName? : String → Option α) : Decoder α
  | .string (some s) => match ofName? s with
    | some a => .ok a
    | none => .error .mismatched
  | .object ((name, value) :: rest) closed => do
    let k ← key name
    let a ← match ofName? k with
      | some a => .ok a
      | none => .error .mismatched
    match value with
    | .null => pure ()
    | r => r.mismatch
    if rest.isEmpty then finish closed else throw .malformed
    pure a
  | _ => .error .malformed

/-- Any value, at a place that is already `depth` levels deep. -/
def anything (depth : Nat) : Decoder Json := fun r => r.toJson (maxLevels - depth)

end Reading

end Tenancy

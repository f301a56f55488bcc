import Tenancy.Text.Blank

/-!
# Media types

A media type is a type and a subtype with parameters after it, such as
`application/json; charset=utf-8`. The part of the subtype after its last `+` names the format that it
is built on. What says that a text is JSON is `application/json` or any type `application/…+json`,
whatever the letters' case and the parameters, as long as these are well formed.

The value of a parameter is a name or stands between quotes. Without quotes it may be empty only at
the end. Between quotes it has at least one character, the first of which may itself be a quote.
-/

namespace Tenancy.Http

def isTokenChar (c : Char) : Bool := c.isAlphanum || "!#$&'*+-.^_%\x60|~".toList.contains c

/-- Characters of a name, at least one, and what follows them. -/
def token (cs : List Char) : Option (List Char × List Char) :=
  match cs.takeWhile isTokenChar with
  | [] => none
  | name => some (name, cs.dropWhile isTokenChar)

/-- A character that may stand between quotes: a printable one of ASCII. -/
def isQuotable (c : Char) : Bool := 0x20 ≤ c.toNat && c.toNat < 0x7F

/-- What follows a value in quotes, and the spaces behind it, if the opening quote has been read. -/
def afterQuoted : List Char → Option (List Char)
  | [] => none
  | first :: rest =>
    match rest.dropWhile fun c => c ≠ '"' with
    | [] => none
    | _ :: after =>
      if (first :: rest.takeWhile fun c => c ≠ '"').all isQuotable then
        some (after.dropWhile fun c => c = ' ')
      else none

/-- What follows the value of a parameter. -/
def afterValue (cs : List Char) : Option (List Char) :=
  match cs with
  | '"' :: rest => afterQuoted rest
  | [] => some []
  | _ => (token cs).map (·.2)

/-- The parameters of a media type, one after each `;`, are well formed. Behind the last `;` there may
be none. -/
def parametersOk : Nat → List Char → Bool
  | _, [] => true
  | 0, _ => false
  | fuel + 1, ';' :: rest =>
    match rest.dropWhile fun c => c = ' ' with
    | [] => true
    | next => match token next with
      | some (_, '=' :: value) => match afterValue value with
        | some after => parametersOk fuel after
        | none => false
      | _ => false
  | _, _ => false

def lower (cs : List Char) : String := String.ofList (cs.map Char.toLower)

/-- The subtype up to its last `+`, and what follows that. A `+` at the start does not count. -/
def splitSuffix (subtype : List Char) : List Char × Option (List Char) :=
  let suffix := subtype.reverse.takeWhile fun c => c ≠ '+'
  let base := subtype.take (subtype.length - suffix.length - 1)
  if suffix.length < subtype.length ∧ base ≠ [] then (base, some suffix.reverse) else (subtype, none)

/-- A media type says that a text is JSON. -/
def saysJson (mediaType : String) : Bool :=
  match token mediaType.toList with
  | some (type, '/' :: rest) => match token rest with
    | some (subtype, parameters) =>
      let (base, suffix) := splitSuffix subtype
      lower type = "application" && parametersOk mediaType.length parameters &&
        (lower base = "json" || suffix.map lower = some "json")
    | none => false
  | _ => false

end Tenancy.Http

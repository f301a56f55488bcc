import Tenancy.Text.Blank
import Tenancy.Text.Percent

/-!
# Addresses

An address is put into its normal form before a request is sent: `.` and `..` are resolved, a backslash
counts as a slash, a fragment is dropped, and characters that may not stand in a path or query are
escaped. The request then names the path and the query.
-/

namespace Tenancy.Http.Url

open Text (Percent.encode)

/-- An address in its normal form. -/
structure Target where
  secure : Bool
  authority : String
  path : String
  query : Option String
  deriving DecidableEq, Repr, Inhabited

namespace Target

/-- The path and the query, as a request names them. -/
def text (t : Target) : String :=
  t.path ++ match t.query with
    | some q => "?" ++ q
    | none => ""

end Target

/-! ## Escapes -/

/-- A character that is a control or beyond ASCII. -/
def isUnprintable (c : Char) : Bool := c.toNat < 0x20 || 0x7E < c.toNat

def escapedInPath (c : Char) : Bool := isUnprintable c || " \"<>\x60\x7b\x7d".toList.contains c

def escapedInQuery (c : Char) : Bool := isUnprintable c || " \"<>#'".toList.contains c

/-! ## Paths -/

/-- The segment stays in its place. -/
def isSingleDot (s : List Char) : Bool := [".", "%2e"].contains (String.ofList (s.map Char.toLower))

/-- The segment takes away the one before it. -/
def isDoubleDot (s : List Char) : Bool :=
  ["..", ".%2e", "%2e.", "%2e%2e"].contains (String.ofList (s.map Char.toLower))

/-- Resolve the dots in segments; those already resolved come last first. At the end of a path dots
leave an empty segment. -/
def resolve (done : List (List Char)) : List (List Char) → List (List Char)
  | [] => done.reverse
  | [s] =>
    if isDoubleDot s then ([] :: done.drop 1).reverse
    else if isSingleDot s then ([] :: done).reverse
    else (s :: done).reverse
  | s :: t :: rest =>
    if isDoubleDot s then resolve (done.drop 1) (t :: rest)
    else if isSingleDot s then resolve done (t :: rest)
    else resolve (s :: done) (t :: rest)

def normalPath (cs : List Char) : String :=
  let slashed := cs.map fun c => if c = '\\' then '/' else c
  let parts := match slashed with
    | '/' :: rest => Text.cutAt '/' rest
    | rest => Text.cutAt '/' rest
  let resolved := (resolve [] parts).map (Percent.encode escapedInPath)
  String.ofList (resolved.flatMap fun s => '/' :: s)

/-! ## Whole addresses -/

/-- The text without controls and blanks at its ends, and without breaks inside. -/
def cleaned (s : String) : List Char :=
  (Text.trimBy (fun c => c.toNat ≤ 0x20) s.toList).filter fun c => c ≠ '\t' ∧ c ≠ '\n' ∧ c ≠ '\r'

/-- The rest after the scheme, and whether the scheme is the secure one. -/
def scheme? (cs : List Char) : Option (Bool × List Char) :=
  let name := String.ofList ((cs.takeWhile fun c => c ≠ ':').map Char.toLower)
  match cs.dropWhile fun c => c ≠ ':' with
  | ':' :: rest =>
    if name = "http" then some (false, rest) else if name = "https" then some (true, rest) else none
  | _ => none

def endsHost (c : Char) : Bool := ['/', '\\', '?', '#'].contains c

/-- The normal form of an absolute address, if it is one. -/
def parse? (s : String) : Option Target := do
  let (secure, rest) ← scheme? (cleaned s)
  let rest := rest.dropWhile fun c => c = '/' || c = '\\'
  let authority := rest.takeWhile fun c => !endsHost c
  if authority.isEmpty then none
  let whole := (rest.dropWhile fun c => !endsHost c).takeWhile fun c => c ≠ '#'
  let path := whole.takeWhile fun c => c ≠ '?'
  let query := match whole.dropWhile fun c => c ≠ '?' with
    | _ :: q => some (String.ofList (Percent.encode escapedInQuery q))
    | [] => none
  some ⟨secure, String.ofList authority, normalPath path, query⟩

end Tenancy.Http.Url

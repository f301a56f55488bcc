import Tenancy.Text.Hex
import Tenancy.Text.Utf8

/-!
# Percent escapes

A byte that may not stand in an address is written `%` with its two hexadecimal digits in upper case.
Which characters need that depends on the place. Reading turns every complete escape into its byte
and leaves anything else as it is. A form is a list of pairs in which blanks are written `+`.
-/

namespace Tenancy.Text.Percent

def escape (b : UInt8) : List Char :=
  ['%', hexDigitUpper (b.toNat / 16), hexDigitUpper (b.toNat % 16)]

/-- A character as it is, or its bytes as escapes when it is one of those to escape. -/
def encodeChar (toEscape : Char → Bool) (c : Char) : List Char :=
  if toEscape c then (String.utf8EncodeChar c).flatMap escape else [c]

/-- The characters, with those to escape escaped. -/
def encode (toEscape : Char → Bool) (cs : List Char) : List Char :=
  cs.flatMap (encodeChar toEscape)

/-- The bytes of a text in which complete escapes stand for bytes. -/
def decodeBytes : Bytes → Bytes
  | [] => []
  | [a] => [a]
  | [a, b] => [a, b]
  | a :: b :: c :: rest =>
    if a = 0x25 then
      match hexValue? (Char.ofNat b.toNat), hexValue? (Char.ofNat c.toNat) with
      | some x, some y => UInt8.ofNat (x * 16 + y) :: decodeBytes rest
      | _, _ => a :: decodeBytes (b :: c :: rest)
    else a :: decodeBytes (b :: c :: rest)

/-- The text with its escapes resolved, if the bytes are a text. -/
def decode? (cs : List Char) : Option String :=
  utf8Decode? (decodeBytes (utf8Encode (String.ofList cs)))

/-- The characters that a form leaves as they are. -/
def formKeeps (c : Char) : Bool :=
  c.isAlphanum || c = '*' || c = '-' || c = '.' || c = '_'

/-- One side of a pair in a form. -/
def formPart (s : String) : List Char :=
  s.toList.flatMap fun c => if c = ' ' then ['+'] else encodeChar (fun c => !formKeeps c) c

/-- A form: the pairs in order, joined by `&`. -/
def form (pairs : List (String × String)) : String :=
  String.ofList (List.intercalate ['&'] (pairs.map fun p => formPart p.1 ++ '=' :: formPart p.2))

end Tenancy.Text.Percent

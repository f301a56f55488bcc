import Tenancy.Decimal.Shortest
import Tenancy.Json.Value
import Tenancy.Text.Hex

/-!
# Compact JSON text

No blanks, members in the order of their keys, and in a text only the double quote, the backslash and
the characters below U+0020 are escaped.
-/

namespace Tenancy

def Json.escapeChar (c : Char) : List Char :=
  if c = '"' then ['\\', '"']
  else if c = '\\' then ['\\', '\\']
  else if c = '\n' then ['\\', 'n']
  else if c = '\r' then ['\\', 'r']
  else if c = '\t' then ['\\', 't']
  else if c = '\x08' then ['\\', 'b']
  else if c = '\x0c' then ['\\', 'f']
  else if c.toNat < 0x20 then ['\\', 'u'] ++ Text.hex4 c.toNat
  else [c]

def Json.quote (s : String) : String :=
  String.ofList ('"' :: (s.toList.flatMap Json.escapeChar ++ ['"']))

def Number.toText : Number → String
  | .int n => toString n
  | .double x => x.toText

mutual

def Json.compact : Json → String
  | .null => "null"
  | .bool true => "true"
  | .bool false => "false"
  | .number n => n.toText
  | .string s => Json.quote s
  | .array items => "[" ++ Json.compactItems items ++ "]"
  | .object members => "\x7b" ++ Json.compactMembers members ++ "\x7d"

def Json.compactItems : List Json → String
  | [] => ""
  | [j] => j.compact
  | j :: k :: rest => j.compact ++ "," ++ Json.compactItems (k :: rest)

def Json.compactMembers : List (String × Json) → String
  | [] => ""
  | [(key, j)] => Json.quote key ++ ":" ++ j.compact
  | (key, j) :: m :: rest =>
    Json.quote key ++ ":" ++ j.compact ++ "," ++ Json.compactMembers (m :: rest)

end

end Tenancy

import Tenancy.Text.Hex
import Tenancy.Text.Printable

/-!
# Quoted text for reports

A text inside a report stands between double quotes. A double quote, a backslash, the line breaks,
the tab and the null character are escaped with a backslash, and any other character that would not
show as itself is written `\u{…}` with its number in hexadecimal.
-/

namespace Tenancy.Text

/-- How one character is written between the quotes. -/
def quotedChar (c : Char) : List Char :=
  if c = '"' then ['\\', '"']
  else if c = '\\' then ['\\', '\\']
  else if c = '\n' then ['\\', 'n']
  else if c = '\r' then ['\\', 'r']
  else if c = '\t' then ['\\', 't']
  else if c.toNat = 0 then ['\\', '0']
  else if isPrintable c then [c]
  else ['\\', 'u', '\x7b'] ++ hexText c.toNat ++ ['\x7d']

def quoted (s : String) : String :=
  String.ofList ('"' :: (s.toList.flatMap quotedChar ++ ['"']))

end Tenancy.Text

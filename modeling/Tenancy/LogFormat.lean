/-!
# Formats of the log

A log is written as one JSON object a line or as plain text. The name of a format may be written in any
case.
-/

namespace Tenancy

inductive LogFormat where
  | json
  | text
  deriving DecidableEq, Repr, Inhabited

namespace LogFormat

/-- Letters from A to Z in lower case. -/
def folded (s : String) : String := String.ofList (s.toList.map Char.toLower)

/-- The format with a name, or why there is none. -/
def ofText (s : String) : Except String LogFormat :=
  match folded s with
  | "json" => .ok json
  | "text" => .ok text
  | "plain" => .ok text
  | other => .error ("unknown log format '" ++ other ++ "', expected 'json' or 'text'")

end LogFormat

end Tenancy
